import FeatureRank.Proofs.Search.Planning
import FeatureRank.Proofs.Search.Segmentation

/-! # Partition — what shards have in common

    With statistics over all shards, what a search without rescore stages says of a
    document is read off the terms of the document and the documents as a whole
    (`Plan.outcome`): every shard with documents makes the same plan
    (`Plan.Made.serves`).  So the answer of an engine is what that plan says of the
    documents at their places (`Engine.Has.response_ends`). -/

namespace FeatureRank

open Tracked

/-! ## One searcher for all -/

/-- A searcher that sees some documents as every shard with documents does when the
    statistics are taken over all shards. -/
def Searcher.reference (docs : List IndexedDocument) (terms : List TermId) : Searcher where
  shard := (Shard.empty.add "" [] 1).1
  global := some (.ofDocs docs terms)

theorem GlobalStatistics.term?_ofDocs (docs : List IndexedDocument) {terms : List TermId}
    {t : TermId} (h : t ∈ terms) : (ofDocs docs terms).term? t = some (.ofDocs docs t) := by
  unfold term? ofDocs
  induction terms with
  | nil => exact nomatch h
  | cons first rest ih =>
      rw [List.map_cons, List.lookup_cons]
      cases hsame : t == first with
      | true => rw [beq_iff_eq.mp hsame]
      | false =>
          have hne : t ≠ first := beq_eq_false_iff_ne.mp hsame
          exact ih ((List.mem_cons.mp h).resolve_left hne)

/-- The shard of the reference holds one document. -/
theorem Searcher.reference_holds : (Shard.empty.add "" [] 1).1.Holds [("", [])] :=
  (Shard.Holds.empty.add "" [] 1).1

/-- A shard with documents sees what the reference sees of collected terms. -/
theorem Searcher.reference_agreeOn (docs : List IndexedDocument) {terms more : List TermId}
    (hmore : ∀ t ∈ terms, t ∈ more) {held : List IndexedDocument} {s : Shard} (hs : s.Holds held)
    (hsome : held ≠ []) :
    (reference docs terms).AgreeOn (· ∈ terms) ⟨s, some (.ofDocs docs more)⟩ where
  isEmpty := by
    have hcount : s.docCount ≠ 0 := by
      rw [hs.docCount]
      exact fun hnone => hsome (List.length_eq_zero_iff.mp hnone)
    unfold isEmpty reference
    rw [reference_holds.docCount, beq_eq_false_iff_ne.mpr hcount]
    rfl
  collection := rfl
  term := by
    intro t ht
    show ((GlobalStatistics.ofDocs docs terms).term? t).getD _
      = ((GlobalStatistics.ofDocs docs more).term? t).getD _
    rw [GlobalStatistics.term?_ofDocs docs ht, GlobalStatistics.term?_ofDocs docs (hmore t ht)]
    rfl

theorem Searcher.reference_perm {docs docs' : List IndexedDocument} (h : docs.Perm docs')
    (terms : List TermId) : reference docs terms = reference docs' terms := by
  unfold reference
  rw [GlobalStatistics.ofDocs_perm h]

/-! ## What a search says of a document -/

namespace SearchHit

/-- Where the document of a hit is. -/
def place (hit : SearchHit) : Nat × Nat := (hit.shard, hit.doc)

/-- What a hit says of its document. -/
def outcome (hit : SearchHit) : Float32 × Std.TreeMap String (List LogEntry) :=
  (hit.score, hit.logs)

end SearchHit

namespace Plan

/-- What a search by a plan says of a document, if it is a hit: its score and its logs. -/
def outcome (p : Plan) (doc : List TermId) : Option (Float32 × Std.TreeMap String (List LogEntry)) :=
  (p.score? doc).map fun score =>
    (score, (p.logs doc).foldl (fun logs (name, log) => logs.insert name log) {})

/-- What a search by a plan says of a located document. -/
def said (p : Plan) (x : (Nat × Nat) × IndexedDocument) :
    Option ((Nat × Nat) × Float32 × Std.TreeMap String (List LogEntry)) :=
  (p.outcome x.2.2).map (x.1, ·)

/-- A located document as a hit that is not fetched yet. -/
def hit? (p : Plan) (settings : Settings) (x : (Nat × Nat) × IndexedDocument) :
    Option SearchHit :=
  (p.score? x.2.2).map fun score => {
    key := x.2.1, shard := x.1.1
    doc := x.1.2, score, nan := (ShardHit.ofScore (settings.under x.1.1) x.1.2 score).nan }

/-- A plan for a request over some documents, wherever they are. -/
def For (p : Plan) (dictionary : Dictionary) (settings : Settings) (request : SearchRequest)
    (docs : List IndexedDocument) : Prop :=
  ∃ r : ShardRequest, (ShardRequest.ofRequest dictionary settings request).Ends (.ok r) ∧
    r.Plain ∧ p.Made r (.reference docs r.terms) settings

theorem For.perm {p : Plan} {dictionary : Dictionary} {settings : Settings}
    {request : SearchRequest} {docs docs' : List IndexedDocument}
    (h : p.For dictionary settings request docs) (hdocs : docs.Perm docs') :
    p.For dictionary settings request docs' := by
  obtain ⟨r, hr, hplain, hmade⟩ := h
  refine ⟨r, hr, hplain, ?_⟩
  rw [← Searcher.reference_perm hdocs]
  exact hmade

/-- A shard that makes some plan for a request, the given one if it has documents. -/
structure Serves (p : Plan) (r : ShardRequest) (global : Option GlobalStatistics)
    (settings : Settings) (docs : List IndexedDocument) (s : Shard) : Prop where
  holds : s.Holds docs
  plan : ∃ q : Plan, q.Made r ⟨s, global⟩ settings ∧ (docs ≠ [] → q = p)

/-- **Every shard serves a request by the plan of the reference.** -/
theorem Made.serves {p : Plan} {r : ShardRequest} {settings : Settings}
    {docs : List IndexedDocument} (h : p.Made r (.reference docs r.terms) settings)
    (hr : r.Plain) {more : List TermId} (hmore : ∀ t ∈ r.terms, t ∈ more)
    {held : List IndexedDocument} {s : Shard} (hs : s.Holds held) :
    p.Serves r (some (.ofDocs docs more)) settings held s := by
  refine ⟨hs, ?_⟩
  by_cases hnone : held = []
  · have hscored := (h.score_ends Searcher.reference_holds hr.fits).yields
    obtain ⟨q, hq⟩ := made_of_score hr hscored ⟨s, some (.ofDocs docs more)⟩
    exact ⟨q, hq, fun hsome => absurd hnone hsome⟩
  · exact ⟨p, h.congr (Searcher.reference_agreeOn docs hmore hs hnone), fun _ => rfl⟩

end Plan

/-! ## Parts that are scored -/

namespace Engine

variable {p : Plan} {r : ShardRequest} {global : Option GlobalStatistics} {settings : Settings}

/-- A part of a request whose shard was scored by a plan, for the documents of the shard
    with their place. -/
structure Scored (p : Plan) (r : ShardRequest) (global : Option GlobalStatistics)
    (settings : Settings) (x : List IndexedDocument × Nat) (part : Nat × Shard × ShardRequest) :
    Prop where
  place : part.1 = x.2
  holds : part.2.1.Holds x.1
  plan : ∃ q : Plan, q.Made r ⟨part.2.1, global⟩ settings ∧ part.2.2 = q.after r x.1 ∧
    (x.1 ≠ [] → q = p)

/-- The hits of a shard are those of its documents. -/
theorem hitsOf_plan (hunscored : Plan.Unscored p.slots) {docs : List IndexedDocument} {s : Shard}
    (hs : s.Holds docs) (place : Nat) :
    hitsOf place s ((Shard.numbered docs).filterMap
        (WeightedSlot.hitOn (settings.under place) p.lets p.slots))
      = (Layout.onShard place docs).filterMap (p.hit? settings) := by
  unfold hitsOf Shard.numbered Layout.onShard
  rw [List.zipIdx_map, List.filterMap_map, List.map_filterMap, List.filterMap_map]
  refine List.filterMap_congr fun x hx => ?_
  obtain ⟨d, n⟩ := x
  obtain ⟨hle, hget⟩ := List.mem_zipIdx_iff_le_and_getElem?_sub.mp hx
  obtain ⟨index, rfl⟩ : ∃ index, n = index + 1 := ⟨n - 1, by omega⟩
  have hkey : s.key? (index + 1) = some d.1 := by
    rw [hs.key?]
    exact congrArg (Option.map (·.1)) hget
  show (WeightedSlot.hitOn (settings.under place) p.lets p.slots (d.2, index + 1)).map _
    = p.hit? settings ((place, index + 1), d)
  rw [Plan.hitOn_unscored _ hunscored, Option.map_map]
  unfold Plan.hit?
  refine congrArg (fun f => (p.score? d.2).map f) (funext fun score => ?_)
  simp only [Function.comp_apply, ShardHit.ofScore, hkey, Option.getD_some]

/-- **Scoring all parts** finds the hits among the documents, shard after shard. -/
theorem scoreParts_ends (hr : r.Plain) {contents : List (List IndexedDocument)}
    {shards : List Shard} (h : List.Forall₂ (p.Serves r global settings) contents shards) :
    ∀ first : Nat, ∃ after : Parts,
      (scoreParts settings global ((shards.zipIdx first).map fun x => (x.2, x.1, r))).Ends
        (.ok (after, (Layout.locatedFrom first contents).filterMap (p.hit? settings))) ∧
      List.Forall₂ (Scored p r global settings) (contents.zipIdx first) after := by
  induction h with
  | nil => exact fun _ => ⟨[], .pure _, .nil⟩
  | @cons docs s contents shards hfirst _ ih =>
      intro first
      obtain ⟨after, hends, hafter⟩ := ih (first + 1)
      obtain ⟨hs, q, hmade, hq⟩ := hfirst
      have hunder : q.Made r ⟨s, global⟩ (settings.under first) := Plan.made_under.mpr hmade
      have hscored := hunder.score_ends hs hr.fits
      have hhits : hitsOf first s ((Shard.numbered docs).filterMap
          (WeightedSlot.hitOn (settings.under first) q.lets q.slots))
        = (Layout.onShard first docs).filterMap (p.hit? settings) := by
        rw [hitsOf_plan (hmade.unscored hr) hs]
        exact Layout.filterMap_onShard first fun hsome => by rw [hq hsome]
      refine ⟨(first, s, q.after r docs) :: after, ?_, .cons ⟨rfl, hs, q, hmade, rfl, hq⟩ hafter⟩
      show (scoreParts settings global ((first, s, r) ::
        (shards.zipIdx (first + 1)).map fun x => (x.2, x.1, r))).Ends _
      unfold scoreParts
      refine hscored.bind (hends.bind ?_)
      rw [Layout.locatedFrom_cons, List.filterMap_append, ← hhits]
      exact .pure _

/-! ## Parts that are fetched -/

/-- The terms of a document on a shard. -/
theorem termsAt_onShard {docs : List IndexedDocument} {place : Nat}
    {x : (Nat × Nat) × IndexedDocument} (h : x ∈ Layout.onShard place docs) :
    Shard.termsAt docs x.1.2 = some x.2.2 := by
  obtain ⟨⟨d, n⟩, hd, rfl⟩ := List.mem_map.mp h
  obtain ⟨hle, hget⟩ := List.mem_zipIdx_iff_le_and_getElem?_sub.mp hd
  obtain ⟨index, rfl⟩ : ∃ index, n = index + 1 := ⟨n - 1, by omega⟩
  exact congrArg (Option.map (·.2)) hget

/-- The hits of a shard are different documents that the filter lets through. -/
theorem hitsOf_onShard {docs : List IndexedDocument} {place : Nat} {hits : List SearchHit}
    (hhits : hits.Perm ((Layout.onShard place docs).filterMap (p.hit? settings))) :
    p.HitsOf docs (hits.map (·.doc)) := by
  refine ⟨(hhits.map _).nodup_iff.mpr ?_, ?_⟩
  · have hnumbers : ((docs.zipIdx 1).map (·.2)).Nodup := by
      rw [List.zipIdx_map_snd]
      exact List.nodup_range'
    refine List.pairwise_map.mpr (List.pairwise_filterMap.mpr
      (List.pairwise_map.mpr ((List.pairwise_map.mp hnumbers).imp ?_)))
    intro x y hne hit hhit hit' hhit' hsame
    obtain ⟨_, -, rfl⟩ := Option.map_eq_some_iff.mp hhit
    obtain ⟨_, -, rfl⟩ := Option.map_eq_some_iff.mp hhit'
    exact hne hsame
  · intro n hn
    obtain ⟨hit, hhit, rfl⟩ := List.mem_map.mp hn
    obtain ⟨x, hx, hfound⟩ := List.mem_filterMap.mp (hhits.mem_iff.mp hhit)
    obtain ⟨score, hscore, rfl⟩ := Option.map_eq_some_iff.mp hfound
    refine ⟨x.2.2, termsAt_onShard hx, ?_⟩
    by_contra hnot
    unfold Plan.score? at hscore
    rw [if_neg hnot] at hscore
    exact nomatch hscore

/-- What a hit says once it has the logs of its document. -/
def loggedBy (p : Plan) (docs : List IndexedDocument) (hit : SearchHit) :
    (Nat × Nat) × Float32 × Std.TreeMap String (List LogEntry) :=
  (hit.place, (hit.withLogs (p.logs ((Shard.termsAt docs hit.doc).getD []))).outcome)

/-- The hits of a shard say with their logs what the plan says of its documents. -/
theorem loggedBy_hits (p : Plan) (place : Nat) (docs : List IndexedDocument) :
    ((Layout.onShard place docs).filterMap (p.hit? settings)).map (loggedBy p docs)
      = (Layout.onShard place docs).filterMap p.said := by
  rw [List.map_filterMap]
  refine List.filterMap_congr fun x hx => ?_
  unfold Plan.hit? Plan.said Plan.outcome
  rw [Option.map_map, Option.map_map]
  refine congrArg (fun f => (p.score? x.2.2).map f) (funext fun score => ?_)
  show loggedBy p docs _ = _
  unfold loggedBy
  rw [termsAt_onShard hx]
  rfl

/-- Hits that differ from others in explanations at most. -/
def Explains (shown hits : List SearchHit) : Prop :=
  List.Forall₂ (fun s hit => s = { hit with explanation := s.explanation }) shown hits

/-- **Logging the hits of a shard**, with explanations or without, says of each what the
    plan says of its document. -/
theorem log_tells {docs : List IndexedDocument} {s : Shard} (hs : s.Holds docs) (hr : r.Plain)
    (h : p.Made r ⟨s, global⟩ settings) {place : Nat} {hits shown : List SearchHit}
    (hhits : hits.Perm ((Layout.onShard place docs).filterMap (p.hit? settings)))
    (hshown : Explains shown hits) :
    ∃ fetched, ((p.after r docs).log { shard := s } settings shown).Ends (.ok fetched) ∧
      (fetched.map fun hit => (hit.place, hit.outcome)).Perm
        ((Layout.onShard place docs).filterMap p.said) := by
  have hdocs : shown.map (·.doc) = hits.map (·.doc) :=
    map_eq_of_forall₂ (hshown.imp fun s hit hs => by rw [hs])
  have hlogged : shown.map (loggedBy p docs) = hits.map (loggedBy p docs) :=
    map_eq_of_forall₂ (hshown.imp fun s hit hs => by rw [hs]; rfl)
  have hof := hitsOf_onShard hhits
  rw [← hdocs] at hof
  refine ⟨_, h.log_ends hs hr.fits (h.unscored hr) hof, ?_⟩
  rw [List.map_map]
  show (shown.map (loggedBy p docs)).Perm _
  rw [hlogged, ← loggedBy_hits]
  exact hhits.map _

/-- **Fetching a part** says of each hit what the plan says of its document. -/
theorem fetch_ends (hr : r.Plain) {x : List IndexedDocument × Nat}
    {part : Nat × Shard × ShardRequest} (h : Scored p r global settings x part) (explain : Bool)
    {hits : List SearchHit}
    (hhits : hits.Perm ((Layout.onShard x.2 x.1).filterMap (p.hit? settings))) :
    ∃ fetched, (fetch settings global explain part.2.1 part.2.2 hits).Ends (.ok fetched) ∧
      (fetched.map fun hit => (hit.place, hit.outcome)).Perm
        ((Layout.onShard x.2 x.1).filterMap p.said) := by
  obtain ⟨-, hs, q, hmade, hafter, hq⟩ := h
  -- a shard without documents may have made another plan, which says as much of none
  have hsaid : (Layout.onShard x.2 x.1).filterMap p.said
      = (Layout.onShard x.2 x.1).filterMap q.said :=
    Layout.filterMap_onShard x.2 fun hsome => by rw [hq hsome]
  have hsame : (Layout.onShard x.2 x.1).filterMap (p.hit? settings)
      = (Layout.onShard x.2 x.1).filterMap (q.hit? settings) :=
    Layout.filterMap_onShard x.2 fun hsome => by rw [hq hsome]
  rw [hsame] at hhits
  rw [hafter, hsaid]
  unfold fetch
  cases explain with
  | false =>
      obtain ⟨fetched, hfetched, hperm⟩ :=
        log_tells hs hr hmade hhits (List.forall₂_same.mpr fun _ _ => rfl)
      rw [if_neg (by decide)]
      exact ⟨fetched, (Tracked.Ends.pure hits).bind hfetched, hperm⟩
  | true =>
      have hexplained : ∀ hit ∈ hits, ∃ s : SearchHit, Tracked.Ends (do
          return { hit with
            explanation := some (← (q.after r x.1).explain ⟨part.2.1, global⟩ settings hit.doc) })
          (.ok s) ∧ s = { hit with explanation := s.explanation } := by
        intro hit hhit
        obtain ⟨doc, hdoc, -⟩ :=
          (hitsOf_onShard hhits).lets hit.doc (List.mem_map.mpr ⟨hit, hhit, rfl⟩)
        have hexplain := hmade.explain_ends hs hr hdoc
        exact ⟨_, hexplain.bind (.pure _), rfl⟩
      obtain ⟨shown, hends, hshown⟩ :=
        Tracked.Ends.mapM_exists (List.forall₂_same.mpr hexplained)
      obtain ⟨fetched, hfetched, hperm⟩ := log_tells hs hr hmade hhits hshown
      rw [if_pos rfl]
      exact ⟨fetched, hends.bind hfetched, hperm⟩

/-! ## Responses -/

/-- What a response says of located documents by a plan, in whichever order. -/
structure Says (p : Plan) (items : List ((Nat × Nat) × IndexedDocument))
    (response : SearchResponse) : Prop where
  total : response.total = (items.map (·.2)).countP fun d => (p.outcome d.2).isSome
  hits : (response.hits.map fun hit => (hit.place, hit.outcome)).Perm (items.filterMap p.said)

theorem Says.perm {items items' : List ((Nat × Nat) × IndexedDocument)}
    {response : SearchResponse} (h : Says p items response) (hitems : items.Perm items') :
    Says p items' response where
  total := h.total.trans ((hitems.map _).countP_eq _)
  hits := h.hits.trans (hitems.filterMap p.said)

/-- The hits before they are fetched are as many as the documents that are hits. -/
theorem length_hits (p : Plan) (items : List ((Nat × Nat) × IndexedDocument)) :
    (items.filterMap (p.hit? settings)).length
      = (items.map (·.2)).countP fun d => (p.outcome d.2).isSome := by
  rw [List.length_filterMap_eq_countP, List.countP_map]
  refine List.countP_congr fun x _ => ?_
  show (p.hit? settings x).isSome = true ↔ (p.outcome x.2.2).isSome = true
  unfold Plan.hit? Plan.outcome
  rw [Option.isSome_map, Option.isSome_map]

/-- What is said shard by shard is said of all located documents. -/
theorem said_flatten {contents : List (List IndexedDocument)} :
    ∀ {first : Nat} {fetched : List (List SearchHit)},
      List.Forall₂ (fun hits (x : List IndexedDocument × Nat) =>
          (hits.map fun hit => (hit.place, hit.outcome)).Perm
            ((Layout.onShard x.2 x.1).filterMap p.said)) fetched (contents.zipIdx first) →
      (fetched.flatten.map fun hit => (hit.place, hit.outcome)).Perm
        ((Layout.locatedFrom first contents).filterMap p.said) := by
  induction contents with
  | nil =>
      intro first fetched h
      rw [List.forall₂_nil_right_iff.mp h]
      exact List.Perm.refl _
  | cons docs rest ih =>
      intro first fetched h
      cases h with
      | cons hfirst hrest =>
          rw [Layout.locatedFrom_cons, List.filterMap_append, List.flatten_cons, List.map_append]
          exact hfirst.append (ih hrest)

/-- The hits of one shard among all. -/
theorem filter_hits (p : Plan) {l : Layout} {x : List IndexedDocument × Nat}
    (hx : x ∈ l.contents.zipIdx) :
    (l.located.filterMap (p.hit? settings)).filter (·.shard == x.2)
      = (Layout.onShard x.2 x.1).filterMap (p.hit? settings) := by
  have hshard : l.located.filter (·.1.1 == x.2) = Layout.onShard x.2 x.1 := by
    have hget : l.located.filter (·.1.1 == 0 + x.2) = Layout.onShard (0 + x.2) x.1 :=
      Layout.filter_locatedFrom (List.mem_zipIdx_iff_getElem?.mp hx)
    rw [Nat.zero_add] at hget
    exact hget
  rw [← hshard, List.filter_filterMap, List.filterMap_filter]
  refine List.filterMap_congr fun y _ => ?_
  unfold Plan.hit?
  cases p.score? y.2.2 with
  | none => split <;> rfl
  | some score =>
      show (Option.some _).filter _ = _
      rw [Option.filter_some]
      rfl

/-- The request on every shard of an engine. -/
def partsOf (e : Engine) (r : ShardRequest) : Parts :=
  e.shards.toList.zipIdx.map fun x => (x.2, x.1, r)

theorem Has.parts_ends {e : Engine} {l : Layout} (h : e.Has l) {request : SearchRequest}
    (hr : (ShardRequest.ofRequest l.dictionary e.settings request).Ends (.ok r)) :
    (e.parts request).Ends (.ok (e.partsOf r)) := by
  refine Tracked.Ends.mapM (List.forall₂_map_right_iff.mpr (List.forall₂_same.mpr ?_))
  intro x _
  rw [h.dictionary]
  exact hr.bind (.pure _)

/-- The statistics that are collected for a request hold all its terms. -/
theorem Has.globalOf_partsOf {e : Engine} {l : Layout} (h : e.Has l) (hshards : l.contents ≠ [])
    {request : SearchRequest} (hglobal : request.global = true) (r : ShardRequest) :
    ∃ terms, e.globalOf request (e.partsOf r) = some (.ofDocs l.contents.flatten terms) ∧
      ∀ t ∈ r.terms, t ∈ terms := by
  refine ⟨distinctTerms ((e.partsOf r).flatMap fun part => part.2.2.terms), ?_, ?_⟩
  · unfold globalOf
    rw [if_pos hglobal, h.collect]
  · intro t ht
    obtain ⟨docs, hdocs⟩ := List.exists_mem_of_ne_nil l.contents hshards
    obtain ⟨s, hs, -⟩ := forall₂_mem h.contents hdocs
    obtain ⟨place, hplace⟩ := List.mem_iff_getElem?.mp hs
    have hpart : (place, s, r) ∈ e.partsOf r :=
      List.mem_map.mpr ⟨(s, place), List.mem_zipIdx_iff_getElem?.mpr hplace, rfl⟩
    exact mem_distinctTerms.mpr (List.mem_flatMap.mpr ⟨_, hpart, ht⟩)

/-- A request for as many hits as there are documents gets all. -/
theorem best_all (p : Plan) (l : Layout) {size : Nat} (hsize : l.contents.flatten.length ≤ size) :
    ((SearchHit.sort (l.located.filterMap (p.hit? settings))).take size).Perm
      (l.located.filterMap (p.hit? settings)) := by
  have hsort : (SearchHit.sort (l.located.filterMap (p.hit? settings))).Perm
      (l.located.filterMap (p.hit? settings)) :=
    List.mergeSort_perm _ _
  have hlocated : l.located.length = l.contents.flatten.length := by
    rw [← Layout.locatedFrom_documents l.contents 0, List.length_map]
    rfl
  rw [List.take_of_length_le]
  · exact hsort
  · calc (SearchHit.sort (l.located.filterMap (p.hit? settings))).length
        = (l.located.filterMap (p.hit? settings)).length := hsort.length_eq
      _ ≤ l.located.length := List.length_filterMap_le _ _
      _ ≤ size := hlocated ▸ hsize

/-- **A response by a plan** says of every document what the plan does. -/
theorem Has.response_ends {e : Engine} {l : Layout} (h : e.Has l) (hshards : l.contents ≠ [])
    {request : SearchRequest} (hglobal : request.global = true)
    (hsize : l.contents.flatten.length ≤ request.size)
    (hp : p.For l.dictionary e.settings request l.contents.flatten) :
    ∃ response, (e.response request).Ends (.ok response) ∧ Says p l.located response := by
  obtain ⟨r, hr, hplain, hmade⟩ := hp
  obtain ⟨terms, hstatistics, hterms⟩ := h.globalOf_partsOf hshards hglobal r
  have hserves := h.contents.imp fun docs s hs => hmade.serves hplain hterms hs
  obtain ⟨after, hscored, hafter⟩ := scoreParts_ends hplain hserves 0
  let candidates := l.located.filterMap (p.hit? e.settings)
  have heach : List.Forall₂ (fun (part : Nat × Shard × ShardRequest)
        (x : List IndexedDocument × Nat) => ∃ fetched,
      (fetch e.settings (some (.ofDocs l.contents.flatten terms)) request.explain part.2.1 part.2.2
        (((SearchHit.sort candidates).take request.size).filter (·.shard == part.1))).Ends
          (.ok fetched) ∧
      (fetched.map fun hit => (hit.place, hit.outcome)).Perm
        ((Layout.onShard x.2 x.1).filterMap p.said)) after l.contents.zipIdx := by
    refine List.Forall₂.flip
      (((List.forall₂_and_left _ _).mpr ⟨fun _ hx => hx, hafter⟩).imp ?_)
    rintro x part ⟨hx, hpart⟩
    refine fetch_ends hplain hpart request.explain ?_
    rw [hpart.place, ← filter_hits p hx]
    exact (best_all p l hsize).filter _
  obtain ⟨fetched, hfetched, hsaid⟩ := Tracked.Ends.mapM_exists heach
  refine ⟨⟨candidates.length, SearchHit.sort fetched.flatten⟩, ?_, ⟨length_hits p l.located, ?_⟩⟩
  · unfold response
    refine (h.parts_ends hr).bind ?_
    rw [hstatistics]
    exact hscored.bind (hfetched.bind (.pure _))
  · have hsort : (SearchHit.sort fetched.flatten).Perm fetched.flatten := List.mergeSort_perm _ _
    exact (hsort.map _).trans (said_flatten hsaid)

theorem response_of_search {e : Engine} {request : SearchRequest} {response : SearchResponse}
    (h : (e.search request).2 = .ok response) : (e.response request).Yields response := by
  obtain ⟨after, hrun⟩ := track_eq_ok h
  exact ⟨e.counters, after, hrun⟩

end Engine

end FeatureRank
