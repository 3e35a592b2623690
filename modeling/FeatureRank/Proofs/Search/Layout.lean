import FeatureRank.Proofs.Index.Contents
import FeatureRank.Proofs.Outcome
import FeatureRank.Search.Engine

/-! # Layouts

    A layout says which documents stand on which shard of an engine, with the terms
    that the dictionary made of them, and says nothing of segments (`Engine.Has`).
    Adding documents gives every one a place, a shard and a number on it
    (`Layout.addAll`), and an engine lays them out so whatever limit its segments
    have at each of them (`Engine.Has.addSized`).  No document is lost or moved: the
    located documents of the layout are those that were added, with the places they
    got (`Layout.addAll_located`). -/

namespace FeatureRank

structure Layout where
  dictionary : Dictionary := {}
  /-- the documents of each shard, in order -/
  contents : List (List IndexedDocument)

namespace Layout

/-- The layout of an engine without documents. -/
def ofShards (count : Nat) : Layout where
  contents := List.replicate (max count 1) []

theorem contents_ofShards_ne_nil (count : Nat) : (ofShards count).contents ≠ [] := by
  intro hnil
  have hlength := congrArg List.length hnil
  rw [ofShards, List.length_replicate] at hlength
  exact absurd (Nat.le_max_right count 1) (by rw [hlength]; decide)

def docCount (l : Layout) : Nat := (l.contents.map (·.length)).sum

/-- The shard that takes a document. -/
def shardFor (l : Layout) (d : SourceDocument) : Nat :=
  (d.shard.getD l.docCount) % l.contents.length

/-- The terms of a document that comes next. -/
def indexed (l : Layout) (d : SourceDocument) : IndexedDocument :=
  (d.id, (l.dictionary.learn (Text.words d.content)).2)

/-- The place of a document that comes next: its shard, and its number there. -/
def placeFor (l : Layout) (d : SourceDocument) : Nat × Nat :=
  (l.shardFor d, (l.contents[l.shardFor d]?.getD []).length + 1)

/-- The layout with one more document. -/
def add (l : Layout) (d : SourceDocument) : Layout where
  dictionary := (l.dictionary.learn (Text.words d.content)).1
  contents := l.contents.modify (l.shardFor d) (· ++ [l.indexed d])

/-- The layout with more documents, and their places in order. -/
def addAll (l : Layout) : List SourceDocument → Layout × List (Nat × Nat)
  | [] => (l, [])
  | d :: rest =>
    let (last, places) := (l.add d).addAll rest
    (last, l.placeFor d :: places)

/-- Every document with its place, the first shard being of the given number. -/
def locatedFrom : Nat → List (List IndexedDocument) → List ((Nat × Nat) × IndexedDocument)
  | _, [] => []
  | shard, docs :: rest =>
    ((docs.zipIdx 1).map fun x => ((shard, x.2), x.1)) ++ locatedFrom (shard + 1) rest

def located (l : Layout) : List ((Nat × Nat) × IndexedDocument) := locatedFrom 0 l.contents

/-! ## Located documents -/

theorem located_ofShards (count : Nat) : (ofShards count).located = [] := by
  have hnone : ∀ n first : Nat, locatedFrom first (List.replicate n []) = [] := by
    intro n
    induction n with
    | zero => exact fun _ => rfl
    | succ n ih => exact fun first => ih (first + 1)
  exact hnone (max count 1) 0

theorem locatedFrom_documents (contents : List (List IndexedDocument)) (first : Nat) :
    (locatedFrom first contents).map (·.2) = contents.flatten := by
  induction contents generalizing first with
  | nil => rfl
  | cons docs rest ih =>
      unfold locatedFrom
      rw [List.map_append, ih, List.map_map, List.flatten_cons]
      exact congrArg (· ++ _) (List.zipIdx_map_fst 1 docs)

theorem le_of_mem_locatedFrom {contents : List (List IndexedDocument)} {first : Nat}
    {x : (Nat × Nat) × IndexedDocument} (h : x ∈ locatedFrom first contents) :
    first ≤ x.1.1 := by
  induction contents generalizing first with
  | nil => exact nomatch h
  | cons docs rest ih =>
      rcases List.mem_append.mp h with hhere | hthere
      · obtain ⟨y, -, rfl⟩ := List.mem_map.mp hhere
        exact Nat.le_refl _
      · exact Nat.le_of_succ_le (ih hthere)

/-- No two documents have the same place. -/
theorem locatedFrom_nodup (contents : List (List IndexedDocument)) (first : Nat) :
    ((locatedFrom first contents).map (·.1)).Nodup := by
  induction contents generalizing first with
  | nil => exact List.nodup_nil
  | cons docs rest ih =>
      unfold locatedFrom
      rw [List.map_append, List.map_map]
      refine List.nodup_append.mpr ⟨?_, ih (first + 1), ?_⟩
      · have hnumbers : ((docs.zipIdx 1).map (·.2)).Nodup := by
          rw [List.zipIdx_map_snd]
          exact List.nodup_range'
        exact List.pairwise_map.mpr ((List.pairwise_map.mp hnumbers).imp
          fun hne hsame => hne (Prod.mk.inj hsame).2)
      · intro place hhere other hthere hsame
        obtain ⟨x, -, rfl⟩ := List.mem_map.mp hhere
        obtain ⟨y, hy, rfl⟩ := List.mem_map.mp hthere
        have hle := le_of_mem_locatedFrom hy
        rw [← hsame] at hle
        exact absurd hle (Nat.not_succ_le_self first)

/-- A document at the end of a shard comes after all that were there. -/
theorem locatedFrom_modify (d : IndexedDocument) :
    ∀ {contents : List (List IndexedDocument)} {first shard : Nat} {docs : List IndexedDocument},
      contents[shard]? = some docs →
      (locatedFrom first (contents.modify shard (· ++ [d]))).Perm
        (locatedFrom first contents ++ [((first + shard, docs.length + 1), d)]) := by
  intro contents
  induction contents with
  | nil => exact fun h => nomatch h
  | cons here rest ih =>
      intro first shard docs h
      cases shard with
      | zero =>
          obtain rfl : here = docs := Option.some.inj h
          rw [List.modify_zero_cons]
          unfold locatedFrom
          rw [List.zipIdx_append, List.map_append, List.append_assoc, List.append_assoc,
            Nat.add_comm 1]
          exact List.Perm.append_left _ List.perm_append_comm
      | succ shard =>
          rw [List.modify_succ_cons]
          unfold locatedFrom
          have hshard : first + (shard + 1) = first + 1 + shard := by omega
          rw [List.append_assoc, hshard]
          exact List.Perm.append_left _ (ih h)

theorem shardFor_lt (l : Layout) (d : SourceDocument) (h : l.contents ≠ []) :
    l.shardFor d < l.contents.length := Nat.mod_lt _ (List.length_pos_of_ne_nil h)

theorem contents_add_ne_nil {l : Layout} (h : l.contents ≠ []) (d : SourceDocument) :
    (l.add d).contents ≠ [] := by
  refine fun hnil => h (List.length_eq_zero_iff.mp ?_)
  rw [← List.length_modify (· ++ [l.indexed d]) (i := l.shardFor d)]
  exact List.length_eq_zero_iff.mpr hnil

/-- **Adding a document** locates it at its place and moves no other. -/
theorem add_located {l : Layout} (h : l.contents ≠ []) (d : SourceDocument) :
    (l.add d).located.Perm (l.located ++ [(l.placeFor d, l.indexed d)]) := by
  have hlt := l.shardFor_lt d h
  have hget := List.getElem?_eq_getElem hlt
  have hperm : (locatedFrom 0 (l.add d).contents).Perm _ := locatedFrom_modify (l.indexed d) hget
  have hplace : l.placeFor d = (0 + l.shardFor d, l.contents[l.shardFor d].length + 1) := by
    unfold placeFor
    rw [hget, Nat.zero_add]
    rfl
  rw [hplace]
  exact hperm

end Layout

/-- Documents as a dictionary that learns their words makes them, in order. -/
def Dictionary.index (dictionary : Dictionary) : List SourceDocument → List IndexedDocument
  | [] => []
  | d :: rest =>
    (d.id, (dictionary.learn (Text.words d.content)).2)
      :: index (dictionary.learn (Text.words d.content)).1 rest

theorem Dictionary.length_index (docs : List SourceDocument) :
    ∀ dictionary : Dictionary, (dictionary.index docs).length = docs.length := by
  induction docs with
  | nil => exact fun _ => rfl
  | cons d rest ih => exact fun dictionary => congrArg (· + 1) (ih _)

namespace Layout

theorem contents_addAll_ne_nil (docs : List SourceDocument) :
    ∀ {l : Layout}, l.contents ≠ [] → (l.addAll docs).1.contents ≠ [] := by
  induction docs with
  | nil => exact fun h => h
  | cons d rest ih => exact fun h => ih (contents_add_ne_nil h d)

theorem length_addAll (docs : List SourceDocument) :
    ∀ l : Layout, (l.addAll docs).2.length = docs.length := by
  induction docs with
  | nil => exact fun _ => rfl
  | cons d rest ih => exact fun l => congrArg (· + 1) (ih (l.add d))

theorem addAll_cons (l : Layout) (d : SourceDocument) (rest : List SourceDocument) :
    l.addAll (d :: rest)
      = (((l.add d).addAll rest).1, l.placeFor d :: ((l.add d).addAll rest).2) := rfl

/-- The dictionary of a layout indexes documents as the layout does, one by one. -/
theorem index_cons (l : Layout) (d : SourceDocument) (rest : List SourceDocument) :
    l.dictionary.index (d :: rest) = l.indexed d :: (l.add d).dictionary.index rest := by
  rw [Dictionary.index, indexed, add]

/-- **Adding documents** locates each at its place and moves no other. -/
theorem addAll_located (docs : List SourceDocument) :
    ∀ {l : Layout}, l.contents ≠ [] →
      (l.addAll docs).1.located.Perm
        (l.located ++ (l.addAll docs).2.zip (l.dictionary.index docs)) := by
  induction docs with
  | nil => exact fun {l} _ => (List.append_nil l.located).symm ▸ List.Perm.refl _
  | cons d rest ih =>
      intro l h
      rw [addAll_cons, index_cons, List.zip_cons_cons]
      refine (ih (contents_add_ne_nil h d)).trans ?_
      refine ((add_located h d).append_right _).trans ?_
      rw [List.append_assoc, List.singleton_append]

end Layout

/-- Documents of a list with the places where a layout has them. -/
structure Layout.Locates (l : Layout) (places : List (Nat × Nat)) (docs : List IndexedDocument) :
    Prop where
  located : l.located.Perm (places.zip docs)
  nodup : places.Nodup
  length : places.length = docs.length

/-- A layout holds the documents that it locates, and no others. -/
theorem Layout.Locates.documents {l : Layout} {places : List (Nat × Nat)}
    {docs : List IndexedDocument} (h : l.Locates places docs) : l.contents.flatten.Perm docs := by
  have hperm := h.located.map (·.2)
  rw [List.map_snd_zip (Nat.le_of_eq h.length.symm)] at hperm
  rw [← locatedFrom_documents l.contents 0]
  exact hperm

/-- **Documents that are added** are located at different places, each at its own. -/
theorem Layout.addAll_locates (count : Nat) (docs : List SourceDocument) :
    ((ofShards count).addAll docs).1.Locates ((ofShards count).addAll docs).2
      (Dictionary.index {} docs) := by
  have hperm : ((ofShards count).addAll docs).1.located.Perm
      (((ofShards count).addAll docs).2.zip (Dictionary.index {} docs)) := by
    have hadded := addAll_located docs (contents_ofShards_ne_nil count)
    rw [located_ofShards, List.nil_append] at hadded
    exact hadded
  have hlength : ((ofShards count).addAll docs).2.length = (Dictionary.index {} docs).length := by
    rw [length_addAll, Dictionary.length_index]
  refine ⟨hperm, ?_, hlength⟩
  have hplaces := hperm.map (·.1)
  rw [List.map_fst_zip (Nat.le_of_eq hlength)] at hplaces
  exact hplaces.nodup_iff.mp (locatedFrom_nodup _ 0)

/-- Documents of the same text, whichever shards they are meant for. -/
def SourceDocument.SameText (a b : SourceDocument) : Prop := a.id = b.id ∧ a.content = b.content

theorem Dictionary.index_sameText {docs docs' : List SourceDocument}
    (h : List.Forall₂ SourceDocument.SameText docs docs') :
    ∀ dictionary : Dictionary, dictionary.index docs = dictionary.index docs' := by
  induction h with
  | nil => exact fun _ => rfl
  | cons hfirst _ ih =>
      intro dictionary
      unfold index
      rw [hfirst.1, hfirst.2, ih]

namespace Layout

/-- What a dictionary learns does not depend on where the documents go. -/
theorem dictionary_addAll {docs docs' : List SourceDocument}
    (h : List.Forall₂ SourceDocument.SameText docs docs') :
    ∀ {l l' : Layout}, l.dictionary = l'.dictionary →
      (l.addAll docs).1.dictionary = (l'.addAll docs').1.dictionary := by
  induction h with
  | nil => exact fun hsame => hsame
  | cons hfirst _ ih =>
      intro l l' hsame
      refine ih ?_
      unfold add
      rw [hsame, hfirst.2]

/-- The documents of one shard, with their places. -/
def onShard (shard : Nat) (docs : List IndexedDocument) : List ((Nat × Nat) × IndexedDocument) :=
  (docs.zipIdx 1).map fun x => ((shard, x.2), x.1)

/-- Functions are as good as equal on a shard without documents. -/
theorem filterMap_onShard {α : Type} {f g : (Nat × Nat) × IndexedDocument → Option α} (shard : Nat)
    {docs : List IndexedDocument} (h : docs ≠ [] → f = g) :
    (onShard shard docs).filterMap f = (onShard shard docs).filterMap g := by
  cases docs with
  | nil => rw [show onShard shard [] = [] from rfl, List.filterMap_nil, List.filterMap_nil]
  | cons d rest => rw [h (List.cons_ne_nil d rest)]

theorem locatedFrom_cons (first : Nat) (docs : List IndexedDocument)
    (rest : List (List IndexedDocument)) :
    locatedFrom first (docs :: rest) = onShard first docs ++ locatedFrom (first + 1) rest := rfl

/-- The documents that are located on one shard. -/
theorem filter_locatedFrom {docs : List IndexedDocument} :
    ∀ {contents : List (List IndexedDocument)} {first k : Nat}, contents[k]? = some docs →
      (locatedFrom first contents).filter (·.1.1 == first + k) = onShard (first + k) docs := by
  intro contents
  induction contents with
  | nil => exact fun h => nomatch h
  | cons here rest ih =>
      intro first k h
      rw [locatedFrom_cons, List.filter_append]
      cases k with
      | zero =>
          obtain rfl : here = docs := Option.some.inj h
          have hhere : (onShard first here).filter (·.1.1 == first + 0) = onShard first here :=
            List.filter_eq_self.mpr fun x hx => by
              obtain ⟨y, -, rfl⟩ := List.mem_map.mp hx
              exact beq_self_eq_true first
          have hrest : (locatedFrom (first + 1) rest).filter (·.1.1 == first + 0) = [] :=
            List.filter_eq_nil_iff.mpr fun x hx hsame => by
              have hle := le_of_mem_locatedFrom hx
              rw [beq_iff_eq.mp hsame] at hle
              exact Nat.not_succ_le_self first hle
          rw [hhere, hrest, List.append_nil]
          rfl
      | succ k =>
          have hhere : (onShard first here).filter (·.1.1 == first + (k + 1)) = [] :=
            List.filter_eq_nil_iff.mpr fun x hx hsame => by
              obtain ⟨y, -, rfl⟩ := List.mem_map.mp hx
              have hfirst : first = first + (k + 1) := beq_iff_eq.mp hsame
              omega
          have hshift : first + (k + 1) = first + 1 + k := by omega
          rw [hhere, List.nil_append, hshift]
          exact ih h

end Layout

/-! ## Engines -/

namespace Engine

/-- An engine whose documents are laid out so. -/
structure Has (e : Engine) (l : Layout) : Prop where
  dictionary : e.dictionary = l.dictionary
  contents : List.Forall₂ (fun docs s => s.Holds docs) l.contents e.shards.toList

/-- The engine with another limit of its segments. -/
def withLimit (e : Engine) (limit : Nat) : Engine :=
  { e with settings := { e.settings with segmentLimit := limit } }

/-- Documents added one after the other, each with the limit that segments have when
    it comes, and the places that they got. -/
def addSized (e : Engine) : List (SourceDocument × Nat) → Checked (Engine × List (Nat × Nat))
  | [] => .ok (e, [])
  | (d, limit) :: rest => do
    let (next, number) ← (e.withLimit limit).add d
    let (last, places) ← next.addSized rest
    return (last, ((d.shard.getD e.docCount) % e.shardCount, number) :: places)

theorem Has.ofShards (count : Nat) (settings : Settings) :
    (ofShards count settings).Has (.ofShards count) := by
  refine ⟨rfl, ?_⟩
  show List.Forall₂ _ (List.replicate (max count 1) [])
    (Array.replicate (max count 1) Shard.empty).toList
  rw [Array.toList_replicate]
  induction max count 1 with
  | zero => exact .nil
  | succ n ih => exact .cons Shard.Holds.empty ih

theorem Has.docCount {e : Engine} {l : Layout} (h : e.Has l) : e.docCount = l.docCount := by
  have hsum : ∀ {contents : List (List IndexedDocument)} {shards : List Shard},
      List.Forall₂ (fun docs s => s.Holds docs) contents shards → ∀ start : Nat,
        shards.foldl (fun sum s => sum + s.docCount) start
          = start + (contents.map (·.length)).sum := by
    intro contents shards hholds
    induction hholds with
    | nil => exact fun _ => rfl
    | cons hfirst _ ih =>
        intro start
        rw [List.foldl_cons, ih, hfirst.docCount, List.map_cons, List.sum_cons, Nat.add_assoc]
  unfold Engine.docCount
  rw [← Array.foldl_toList, hsum h.contents 0, Nat.zero_add]
  rfl

theorem Has.shardCount {e : Engine} {l : Layout} (h : e.Has l) :
    e.shardCount = l.contents.length := by
  unfold Engine.shardCount
  rw [← Array.length_toList, ← h.contents.length_eq]

/-- Related lists stay related when an item changes with its counterpart. -/
theorem forall₂_modify_set {α β : Type} {R : α → β → Prop} {f : α → α} {a : α} {b : β} :
    ∀ (i : Nat) {as : List α} {bs : List β}, List.Forall₂ R as bs → as[i]? = some a → R (f a) b →
      List.Forall₂ R (as.modify i f) (bs.set i b) := by
  intro i
  induction i with
  | zero =>
      intro as bs h ha hf
      cases h with
      | nil => exact nomatch ha
      | cons hfirst hrest =>
          rw [List.modify_zero_cons, Option.some.inj ha]
          exact .cons hf hrest
  | succ i ih =>
      intro as bs h ha hf
      cases h with
      | nil => exact nomatch ha
      | cons hfirst hrest =>
          rw [List.modify_succ_cons]
          exact .cons hfirst (ih hrest ha hf)

/-- What adding documents leaves of an engine beside its documents. -/
structure SameBesides (e e' : Engine) : Prop where
  counters : e'.counters = e.counters
  enabled : e'.settings.enabled = e.settings.enabled
  cachesScores : e'.settings.cachesScores = e.settings.cachesScores
  nan : e'.settings.nan = e.settings.nan

/-- **Adding a document**, with any limit, lays it out at its place. -/
theorem Has.add {e : Engine} {l : Layout} (h : e.Has l) (hshards : l.contents ≠ [])
    (d : SourceDocument) (limit : Nat) :
    ∃ next, (e.withLimit limit).add d = .ok (next, (l.placeFor d).2) ∧ next.Has (l.add d) ∧
      e.SameBesides next := by
  have hshard : (d.shard.getD e.docCount) % e.shardCount = l.shardFor d := by
    rw [h.docCount, h.shardCount]
    rfl
  have hlt := l.shardFor_lt d hshards
  obtain ⟨shard, hget, hholds⟩ :=
    forall₂_getElem? h.contents (List.getElem?_eq_getElem hlt)
  rw [Array.getElem?_toList] at hget
  have hplace : ((d.shard.getD (e.withLimit limit).docCount) % (e.withLimit limit).shardCount)
      = l.shardFor d := hshard
  have hshards' : (e.withLimit limit).shards[l.shardFor d]? = some shard := hget
  have hlearn : (e.withLimit limit).dictionary = l.dictionary := h.dictionary
  cases hlearned : l.dictionary.learn (Text.words d.content) with
  | mk dictionary terms =>
      have hindexed : l.indexed d = (d.id, terms) := by rw [Layout.indexed, hlearned]
      have hnext : l.add d
          = ⟨dictionary, l.contents.modify (l.shardFor d) (· ++ [(d.id, terms)])⟩ := by
        rw [Layout.add, hindexed, hlearned]
      have hadded := hholds.add d.id terms (max limit 1)
      rw [hnext]
      unfold Engine.add
      simp only [hplace, hshards', hlearn, hlearned]
      refine ⟨_, congrArg Except.ok (Prod.ext rfl ?_), ⟨rfl, ?_⟩, ⟨rfl, rfl, rfl, rfl⟩⟩
      · refine hadded.2.trans ?_
        unfold Layout.placeFor
        rw [List.getElem?_eq_getElem hlt]
        rfl
      · rw [Array.toList_setIfInBounds]
        exact forall₂_modify_set (l.shardFor d) h.contents (List.getElem?_eq_getElem hlt) hadded.1

/-- **Adding documents**, with any limits, lays them out at their places. -/
theorem Has.addSized (docs : List (SourceDocument × Nat)) :
    ∀ {e : Engine} {l : Layout}, e.Has l → l.contents ≠ [] →
      ∃ last, e.addSized docs = .ok (last, (l.addAll (docs.map (·.1))).2) ∧
        last.Has (l.addAll (docs.map (·.1))).1 ∧ e.SameBesides last := by
  induction docs with
  | nil => exact fun {e l} h _ => ⟨e, rfl, h, ⟨rfl, rfl, rfl, rfl⟩⟩
  | cons x rest ih =>
      intro e l h hshards
      obtain ⟨d, limit⟩ := x
      obtain ⟨next, hadd, hnext, hbesides⟩ := h.add hshards d limit
      obtain ⟨last, hrest, hlast, hbesides'⟩ := ih hnext (Layout.contents_add_ne_nil hshards d)
      rw [List.map_cons, Layout.addAll_cons]
      refine ⟨last, ?_, hlast, ⟨hbesides'.counters.trans hbesides.counters,
        hbesides'.enabled.trans hbesides.enabled,
        hbesides'.cachesScores.trans hbesides.cachesScores, hbesides'.nan.trans hbesides.nan⟩⟩
      have hplace : ((d.shard.getD e.docCount) % e.shardCount, (l.placeFor d).2) = l.placeFor d := by
        rw [h.docCount, h.shardCount]
        rfl
      rw [← hplace]
      exact bind_eq_ok.mpr ⟨_, hadd, bind_eq_ok.mpr ⟨_, hrest, rfl⟩⟩

end Engine

/-! ## Statistics -/

/-- The statistics of some documents. -/
def CollectionStatistics.ofDocs (docs : List IndexedDocument) : CollectionStatistics :=
  ⟨docs.length, (docs.map (·.2.length)).sum⟩

/-- The statistics of a term over some documents. -/
def TermStatistics.ofDocs (docs : List IndexedDocument) (term : TermId) : TermStatistics :=
  ⟨docs.countP (term ∈ ·.2), (docs.map (·.2.count term)).sum⟩

/-- Statistics over some documents, with those of some terms. -/
def GlobalStatistics.ofDocs (docs : List IndexedDocument) (terms : List TermId) :
    GlobalStatistics where
  collection := .ofDocs docs
  terms := terms.map fun term => (term, .ofDocs docs term)

/-- The statistics of documents do not depend on their order. -/
theorem GlobalStatistics.ofDocs_perm {docs docs' : List IndexedDocument} (h : docs.Perm docs')
    (terms : List TermId) : ofDocs docs terms = ofDocs docs' terms := by
  have hcollection : CollectionStatistics.ofDocs docs = .ofDocs docs' := by
    unfold CollectionStatistics.ofDocs
    rw [h.length_eq, (h.map _).sum_nat]
  have hterm : ∀ term, TermStatistics.ofDocs docs term = .ofDocs docs' term := by
    intro term
    unfold TermStatistics.ofDocs
    rw [h.countP_eq, (h.map _).sum_nat]
  unfold ofDocs
  rw [hcollection]
  simp only [hterm]

section

variable {contents : List (List IndexedDocument)} {shards : List Shard}

theorem collection_ofDocs (h : List.Forall₂ (fun docs s => s.Holds docs) contents shards)
    (start : CollectionStatistics) :
    shards.foldl (fun sum s => (⟨sum.docs + s.docCount, sum.tokens + s.tokens⟩ :
        CollectionStatistics)) start
      = ⟨start.docs + (CollectionStatistics.ofDocs contents.flatten).docs,
        start.tokens + (CollectionStatistics.ofDocs contents.flatten).tokens⟩ := by
  induction h generalizing start with
  | nil => rfl
  | cons hfirst _ ih =>
      rw [List.foldl_cons, ih, hfirst.docCount, hfirst.tokens]
      simp only [CollectionStatistics.ofDocs, List.flatten_cons, List.length_append,
        List.map_append, List.sum_append, Nat.add_assoc]

theorem term_ofDocs (h : List.Forall₂ (fun docs s => s.Holds docs) contents shards)
    (term : TermId) (start : TermStatistics) :
    shards.foldl (fun sum s => (⟨sum.docs + s.docFrequency term,
        sum.occurrences + s.termFrequency term⟩ : TermStatistics)) start
      = ⟨start.docs + (TermStatistics.ofDocs contents.flatten term).docs,
        start.occurrences + (TermStatistics.ofDocs contents.flatten term).occurrences⟩ := by
  induction h generalizing start with
  | nil => rfl
  | cons hfirst _ ih =>
      rw [List.foldl_cons, ih, hfirst.docFrequency, hfirst.termFrequency]
      simp only [TermStatistics.ofDocs, List.flatten_cons, List.countP_append, List.map_append,
        List.sum_append, Nat.add_assoc]

end

/-- **Statistics over all shards** are those of the documents, wherever they stand. -/
theorem Engine.Has.collect {e : Engine} {l : Layout} (h : e.Has l) (terms : List TermId) :
    GlobalStatistics.collect e.shards.toList terms = .ofDocs l.contents.flatten terms := by
  unfold GlobalStatistics.collect GlobalStatistics.ofDocs
  rw [collection_ofDocs h.contents]
  simp only [term_ofDocs h.contents, Nat.zero_add]

end FeatureRank
