import FeatureRank.Proofs.Search.Success

/-! # Repartition — shards are invisible

    An answer to a request for all hits says something of the document at each place
    (`SearchResponse.found`), and that is the same for engines of the same documents,
    whatever shards and segments the documents went to (`Engine.Has.response_agree`).
    So two engines that got the same documents both fail or agree, document by
    document (`Engine.partition_invisible`). -/

namespace FeatureRank

open Tracked

/-! ## Answers about the same documents -/

/-- What a response says of the document at a place: nothing, or its score and its logs. -/
def SearchResponse.found (response : SearchResponse) (place : Nat × Nat) :
    List (Float32 × Std.TreeMap String (List LogEntry)) :=
  (response.hits.filter (·.place == place)).map (·.outcome)

/-- Responses with hits for the same documents, which stand at different places: the
    same documents of the lists are hits, with the same scores and logs. -/
structure SearchResponse.Agree (places places' : List (Nat × Nat))
    (response response' : SearchResponse) : Prop where
  total : response.total = response'.total
  placed : ∀ hit ∈ response.hits, hit.place ∈ places
  placed' : ∀ hit ∈ response'.hits, hit.place ∈ places'
  found : places.map response.found = places'.map response'.found

/-- The item of a key, among items of different keys. -/
theorem filter_key {κ α : Type} [BEq κ] [LawfulBEq κ] {items : List (κ × α)}
    (hnodup : (items.map (·.1)).Nodup) {x : κ × α} (hx : x ∈ items) :
    items.filter (·.1 == x.1) = [x] := by
  obtain ⟨earlier, later, rfl⟩ := List.append_of_mem hx
  rw [List.map_append, List.map_cons] at hnodup
  obtain ⟨-, hlater, hearlier⟩ := List.nodup_append.mp hnodup
  have hbefore : earlier.filter (·.1 == x.1) = [] := List.filter_eq_nil_iff.mpr fun y hy hsame =>
    hearlier y.1 (List.mem_map.mpr ⟨y, hy, rfl⟩) x.1 List.mem_cons_self (beq_iff_eq.mp hsame)
  have hafter : later.filter (·.1 == x.1) = [] := List.filter_eq_nil_iff.mpr fun y hy hsame =>
    (List.nodup_cons.mp hlater).1 (List.mem_map.mpr ⟨y, hy, beq_iff_eq.mp hsame⟩)
  have hself : (fun y : κ × α => y.1 == x.1) x = true := beq_self_eq_true x.1
  rw [List.filter_append, hbefore,
    List.filter_cons_of_pos (p := fun y : κ × α => y.1 == x.1) hself, hafter]
  rfl

namespace Engine

variable {p : Plan} {response : SearchResponse}

/-- A response by a plan has hits at places of documents only. -/
theorem Says.placed {items : List ((Nat × Nat) × IndexedDocument)} (h : Says p items response) :
    ∀ hit ∈ response.hits, hit.place ∈ items.map (·.1) := by
  intro hit hhit
  have hmem : (hit.place, hit.outcome) ∈ items.filterMap p.said :=
    h.hits.mem_iff.mp (List.mem_map.mpr ⟨hit, hhit, rfl⟩)
  obtain ⟨x, hx, hsaid⟩ := List.mem_filterMap.mp hmem
  obtain ⟨_, -, hpair⟩ := Option.map_eq_some_iff.mp hsaid
  exact List.mem_map.mpr ⟨x, hx, (Prod.mk.inj hpair).1⟩

/-- **A response by a plan** says of the document at each place what the plan does. -/
theorem Says.found {items : List ((Nat × Nat) × IndexedDocument)} (h : Says p items response)
    (hnodup : (items.map (·.1)).Nodup) {x : (Nat × Nat) × IndexedDocument} (hx : x ∈ items) :
    response.found x.1 = (p.outcome x.2.2).toList := by
  have hsaid : (items.filterMap p.said).filter (·.1 == x.1) = (p.said x).toList := by
    have hitem : (items.filter (·.1 == x.1)).filterMap p.said = (p.said x).toList := by
      rw [filter_key hnodup hx]
      cases hreply : p.said x <;> simp [hreply]
    rw [← hitem, List.filter_filterMap, List.filterMap_filter]
    refine List.filterMap_congr fun y _ => ?_
    rw [Plan.said]
    cases p.outcome y.2.2 with
    | none => split <;> rfl
    | some said =>
        show (Option.some _).filter _ = _
        rw [Option.filter_some]
        rfl
  have hfound := (h.hits.filter (·.1 == x.1)).map (·.2)
  rw [hsaid, List.filter_map, List.map_map] at hfound
  have hlist : (p.said x).toList.map (·.2) = (p.outcome x.2.2).toList := by
    rw [Plan.said]
    cases p.outcome x.2.2 <;> rfl
  rw [hlist] at hfound
  show (response.hits.filter (·.place == x.1)).map (·.outcome) = _
  cases houtcome : (p.outcome x.2.2) with
  | none =>
      rw [houtcome] at hfound
      exact List.perm_nil.mp hfound
  | some said =>
      rw [houtcome] at hfound
      exact List.perm_singleton.mp hfound

/-- What a response says of documents at their places, in order. -/
theorem Says.found_zip {docs : List IndexedDocument} {places : List (Nat × Nat)}
    (hnodup : places.Nodup) (hlength : places.length = docs.length)
    (h : Says p (places.zip docs) response) :
    places.map response.found = docs.map fun d => (p.outcome d.2).toList := by
  have hplaces : (places.zip docs).map (·.1) = places := List.map_fst_zip (Nat.le_of_eq hlength)
  have hdocs : (places.zip docs).map (·.2) = docs := List.map_snd_zip (Nat.le_of_eq hlength.symm)
  calc places.map response.found
      = ((places.zip docs).map (·.1)).map response.found := by rw [hplaces]
    _ = (places.zip docs).map fun x => response.found x.1 := List.map_map
    _ = (places.zip docs).map fun x => (p.outcome x.2.2).toList :=
        List.map_congr_left fun x hx => h.found (by rw [hplaces]; exact hnodup) hx
    _ = ((places.zip docs).map (·.2)).map fun d => (p.outcome d.2).toList := by
        rw [List.map_map]
        rfl
    _ = docs.map fun d => (p.outcome d.2).toList := by rw [hdocs]

/-- Responses by one plan agree on the documents of a list, wherever those stand. -/
theorem Says.agree {docs : List IndexedDocument} {places places' : List (Nat × Nat)}
    {response' : SearchResponse} (hnodup : places.Nodup) (hnodup' : places'.Nodup)
    (hlength : places.length = docs.length) (hlength' : places'.length = docs.length)
    (h : Says p (places.zip docs) response) (h' : Says p (places'.zip docs) response') :
    response.Agree places places' response' where
  total := by
    rw [h.total, h'.total, List.map_snd_zip (Nat.le_of_eq hlength.symm),
      List.map_snd_zip (Nat.le_of_eq hlength'.symm)]
  placed := by
    intro hit hhit
    have hplaced := h.placed hit hhit
    rwa [List.map_fst_zip (Nat.le_of_eq hlength)] at hplaced
  placed' := by
    intro hit hhit
    have hplaced := h'.placed hit hhit
    rwa [List.map_fst_zip (Nat.le_of_eq hlength')] at hplaced
  found := by rw [h.found_zip hnodup hlength, h'.found_zip hnodup' hlength']

/-! ## Engines of the same documents -/

/-- **A search that succeeds has a plan**, which depends on the documents as a whole. -/
theorem Has.plan_of_response {e : Engine} {l : Layout} (h : e.Has l) (hshards : l.contents ≠ [])
    {request : SearchRequest} (hrequest : request.Accepted) (hrescores : request.rescores = [])
    {response : SearchResponse} (hresponse : (e.response request).Yields response) :
    ∃ p : Plan, p.For l.dictionary e.settings request l.contents.flatten := by
  obtain ⟨parts, hparts, hrest⟩ := yields_bind hresponse
  obtain ⟨_, hscored, -⟩ := yields_bind hrest
  cases parts with
  | nil =>
      have hnone : e.shards.toList.zipIdx = [] := List.forall₂_nil_right_iff.mp (yields_mapM hparts)
      have hshards' : e.shards.toList = [] := List.zipIdx_eq_nil_iff.mp hnone
      have hcontents := h.contents
      rw [hshards'] at hcontents
      exact absurd (List.forall₂_nil_right_iff.mp hcontents) hshards
  | cons part rest =>
      obtain ⟨-, -, hr⟩ := parts_yields hparts (k := 0) rfl
      rw [h.dictionary] at hr
      have hplain := ShardRequest.ofRequest_plain hrequest hrescores hr
      obtain ⟨place, s, r⟩ := part
      unfold scoreParts at hscored
      obtain ⟨result, hscore, -⟩ := yields_bind hscored
      obtain ⟨p, hp⟩ := Plan.made_of_score hplain hscore (.reference l.contents.flatten r.terms)
      obtain ⟨ends, hends⟩ :=
        ShardRequest.ofRequest_settled l.dictionary e.settings request
      rw [hends.eq_of_yields hr] at hends
      exact ⟨p, r, hends, hplain, Plan.made_under.mp hp⟩

/-- Engines of the same documents, wherever those are: when the one answers a request, the
    other does, and they agree. -/
theorem Has.response_agree {e e' : Engine} {l l' : Layout} (h : e.Has l) (h' : e'.Has l')
    (hshards : l.contents ≠ []) (hshards' : l'.contents ≠ [])
    (hdictionary : l.dictionary = l'.dictionary) (hsettings : e.settings = e'.settings)
    {docs : List IndexedDocument} {places places' : List (Nat × Nat)}
    (hlocated : l.Locates places docs) (hlocated' : l'.Locates places' docs)
    {request : SearchRequest} (hrequest : request.Accepted) (hglobal : request.global = true)
    (hrescores : request.rescores = []) (hsize : docs.length ≤ request.size)
    {response : SearchResponse} (hresponse : (e.response request).Yields response) :
    ∃ response', (e'.response request).Ends (.ok response') ∧
      response.Agree places places' response' := by
  obtain ⟨p, hp⟩ := h.plan_of_response hshards hrequest hrescores hresponse
  have hall : p.For l'.dictionary e'.settings request l'.contents.flatten := by
    rw [← hdictionary, ← hsettings]
    exact hp.perm (hlocated.documents.trans hlocated'.documents.symm)
  obtain ⟨first, hfirst, hreply⟩ := h.response_ends hshards hglobal
    (hlocated.documents.length_eq ▸ hsize) hp
  obtain ⟨second, hsecond, hreply'⟩ := h'.response_ends hshards' hglobal
    (hlocated'.documents.length_eq ▸ hsize) hall
  obtain rfl : first = response := Except.ok.inj (hfirst.eq_of_yields hresponse)
  exact ⟨second, hsecond, Says.agree hlocated.nodup hlocated'.nodup hlocated.length
    hlocated'.length (hreply.perm hlocated.located) (hreply'.perm hlocated'.located)⟩

/-- An answer of a search whose result does not depend on what was counted. -/
theorem search_of_ends {e : Engine} {request : SearchRequest}
    {result : Except Failure SearchResponse} (h : (e.response request).Ends result) :
    (e.search request).2 = result := h e.counters

/-- An engine that got documents, as one without a limit of its segments, which no search
    reads. -/
theorem addSized_located {count : Nat} {settings : Settings} {docs : List (SourceDocument × Nat)}
    {e : Engine} {places : List (Nat × Nat)}
    (h : (ofShards count settings).addSized docs = .ok (e, places)) :
    (e.withLimit 0).Has ((Layout.ofShards count).addAll (docs.map (·.1))).1 ∧
      places = ((Layout.ofShards count).addAll (docs.map (·.1))).2 ∧
      (e.withLimit 0).settings = { settings with segmentLimit := 0 } := by
  obtain ⟨last, hadd, hlast, hbesides⟩ := (Has.ofShards count settings).addSized docs
    (Layout.contents_ofShards_ne_nil count)
  obtain ⟨rfl, rfl⟩ := Prod.mk.inj (Except.ok.inj (h.symm.trans hadd))
  refine ⟨⟨hlast.dictionary, hlast.contents⟩, rfl, ?_⟩
  show (⟨e.settings.enabled, e.settings.cachesScores, 0, e.settings.nan⟩ : Settings)
    = ⟨settings.enabled, settings.cachesScores, 0, settings.nan⟩
  rw [hbesides.enabled, hbesides.cachesScores, hbesides.nan]
  rfl

/-- **Partitions are invisible**: two engines that get the same documents, for whichever of
    however many shards and with whatever limits of their segments, give each a place of
    its own.  Asked for all hits with statistics over all shards and without rescore
    stages, both fail or both answer, and then the same documents are hits, with the same
    scores and the same logs. -/
theorem partition_invisible (count count' : Nat) (settings : Settings) (limit : Nat)
    {docs docs' : List (SourceDocument × Nat)}
    (hdocs : List.Forall₂ (fun x y => x.1.SameText y.1) docs docs')
    {e e' : Engine} {places places' : List (Nat × Nat)}
    (h : (ofShards count settings).addSized docs = .ok (e, places))
    (h' : (ofShards count' { settings with segmentLimit := limit }).addSized docs'
      = .ok (e', places'))
    {request : SearchRequest} (hrequest : request.Accepted) (hglobal : request.global = true)
    (hrescores : request.rescores = []) (hsize : docs.length ≤ request.size) :
    places.Nodup ∧ places'.Nodup ∧
      ((∃ response response', (e.search request).2 = .ok response ∧
          (e'.search request).2 = .ok response' ∧ response.Agree places places' response') ∨
        ∃ failure failure', (e.search request).2 = .error failure ∧
          (e'.search request).2 = .error failure') := by
  obtain ⟨hhas, rfl, hsettings⟩ := addSized_located h
  obtain ⟨hhas', rfl, hsettings'⟩ := addSized_located h'
  have hsame : List.Forall₂ SourceDocument.SameText (docs.map (·.1)) (docs'.map (·.1)) :=
    List.forall₂_map_left_iff.mpr (List.forall₂_map_right_iff.mpr hdocs)
  have hshards := Layout.contents_addAll_ne_nil (docs.map (·.1))
    (Layout.contents_ofShards_ne_nil count)
  have hshards' := Layout.contents_addAll_ne_nil (docs'.map (·.1))
    (Layout.contents_ofShards_ne_nil count')
  have hdictionary : ((Layout.ofShards count).addAll (docs.map (·.1))).1.dictionary
      = ((Layout.ofShards count').addAll (docs'.map (·.1))).1.dictionary :=
    Layout.dictionary_addAll hsame rfl
  have hlocated := Layout.addAll_locates count (docs.map (·.1))
  have hlocated' := Layout.addAll_locates count' (docs'.map (·.1))
  rw [← Dictionary.index_sameText hsame] at hlocated'
  have hlength : (Dictionary.index {} (docs.map (·.1))).length ≤ request.size := by
    rw [Dictionary.length_index, List.length_map]
    exact hsize
  have hsettings : (e.withLimit 0).settings = (e'.withLimit 0).settings :=
    hsettings.trans hsettings'.symm
  refine ⟨hlocated.nodup, hlocated'.nodup, ?_⟩
  cases hfirst : (e.search request).2 with
  | ok response =>
      have hyields := response_of_search hfirst
      rw [← response_withLimit e 0] at hyields
      obtain ⟨response', hends, hagree⟩ := hhas.response_agree hhas' hshards hshards' hdictionary
        hsettings hlocated hlocated' hrequest hglobal hrescores hlength hyields
      rw [response_withLimit] at hends
      exact Or.inl ⟨response, response', rfl, search_of_ends hends, hagree⟩
  | error failure =>
      cases hsecond : (e'.search request).2 with
      | error failure' => exact Or.inr ⟨failure, failure', rfl, rfl⟩
      | ok response' =>
          have hyields := response_of_search hsecond
          rw [← response_withLimit e' 0] at hyields
          obtain ⟨response, hends, -⟩ := hhas'.response_agree hhas hshards' hshards
            hdictionary.symm hsettings.symm hlocated' hlocated hrequest hglobal hrescores hlength
            hyields
          rw [response_withLimit] at hends
          exact nomatch hfirst.symm.trans (search_of_ends hends)

/-- Documents that are added one after the other keep an engine built. -/
theorem Built.addSized {docs : List (SourceDocument × Nat)} :
    ∀ {e last : Engine} {places : List (Nat × Nat)}, e.Built →
      e.addSized docs = .ok (last, places) → last.Built := by
  induction docs with
  | nil =>
      intro e last places h hadd
      obtain ⟨rfl, -⟩ := Prod.mk.inj (Except.ok.inj hadd)
      exact h
  | cons x rest ih =>
      intro e last places h hadd
      obtain ⟨⟨next, number⟩, hnext, hadd⟩ := bind_eq_ok.mp hadd
      obtain ⟨⟨last', places'⟩, hrest, heq⟩ := bind_eq_ok.mp hadd
      obtain ⟨rfl, -⟩ := Prod.mk.inj (Except.ok.inj heq)
      exact ih (Built.add (e := e.withLimit x.2) h hnext) hrest

/-- Two documents on one shard and on two, asked for by a model with a feature of their
    words and by a word of both, with a log and explanations: both engines answer. -/
theorem partition_invisible_two :
    let model : Model := ⟨"m", ⟨"s", [.stored ⟨"match", ["q"], .anyTerm "\x7b\x7bq\x7d\x7d"⟩,
      .stored ⟨"two", [], .constant 2.0⟩]⟩, .linear "m" [1.0, 1.0] 0.5, 0⟩
    let docs : List (SourceDocument × Nat) := [(⟨"a", "red sea", none⟩, 1), (⟨"b", "sea", none⟩, 1)]
    let docs' : List (SourceDocument × Nat) :=
      [(⟨"a", "red sea", some 1⟩, 2), (⟨"b", "sea", some 0⟩, 3)]
    let request : SearchRequest := {
      queries := [(some "q", .byModel model [("q", "red")] (some true)), (none, .anyTerm "sea")]
      logs := [{ name := some "log", namedQuery := some "q" }]
      explain := true
      global := true }
    ∃ e e', (ofShards 1).addSized docs = .ok (e, [(0, 1), (0, 2)]) ∧
      (ofShards 2 { segmentLimit := 5 }).addSized docs' = .ok (e', [(1, 1), (0, 1)]) ∧
      request.Accepted ∧ docs.length ≤ request.size ∧
      ∃ response response', (e.search request).2 = .ok response ∧
        (e'.search request).2 = .ok response' ∧
        response.Agree [(0, 1), (0, 2)] [(1, 1), (0, 1)] response' := by
  intro model docs docs' request
  have hcompiled : request.Compiled := by
    intro query hquery
    rcases List.mem_cons.mp hquery with rfl | hquery
    · exact ⟨⟨"m",
        ⟨"s", [⟨"match", ["q"], .anyTerm "\x7b\x7bq\x7d\x7d"⟩, ⟨"two", [], .constant 2.0⟩]⟩,
        .linear [1.0, 1.0] 0.5⟩, 0, rfl⟩
    · rw [List.mem_singleton.mp hquery]
      exact trivial
  have hdocs : List.Forall₂ (fun x y : SourceDocument × Nat => x.1.SameText y.1) docs docs' :=
    .cons ⟨rfl, rfl⟩ (.cons ⟨rfl, rfl⟩ .nil)
  obtain ⟨e, hadd, hhas, hsame⟩ :=
    (Has.ofShards 1 {}).addSized docs (Layout.contents_ofShards_ne_nil 1)
  obtain ⟨e', hadd', -⟩ := (Has.ofShards 2 { segmentLimit := 5 }).addSized docs'
    (Layout.contents_ofShards_ne_nil 2)
  have hplaces : ((Layout.ofShards 1).addAll (docs.map (·.1))).2 = [(0, 1), (0, 2)] := rfl
  have hplaces' : ((Layout.ofShards 2).addAll (docs'.map (·.1))).2 = [(1, 1), (0, 1)] := rfl
  rw [hplaces] at hadd
  rw [hplaces'] at hadd'
  have hshards : 0 < e.shardCount := by
    rw [hhas.shardCount]
    exact List.length_pos_iff.mpr
      (Layout.contents_addAll_ne_nil _ (Layout.contents_ofShards_ne_nil 1))
  have hplaceholders : (Template.anyTerm "\x7b\x7bq\x7d\x7d").placeholders = ["q"] := by
    decide +kernel
  have hsupplied : request.Supplied := by
    intro query hquery
    rcases List.mem_cons.mp hquery with rfl | hquery
    · intro f hf
      rcases List.mem_cons.mp hf with heq | hf
      · obtain rfl := Feature.stored.inj heq
        rw [StoredFeature.Supplied, hplaceholders]
        decide
      · obtain rfl := Feature.stored.inj (List.mem_singleton.mp hf)
        exact List.forall_mem_nil _
    · rw [List.mem_singleton.mp hquery]
      exact trivial
  have hresolves : ∀ spec ∈ request.logs, spec.Resolves request := by
    intro spec hspec
    rw [List.mem_singleton.mp hspec]
    exact ⟨_, rfl, trivial⟩
  obtain ⟨response, hresponse⟩ : ∃ response, (e.search request).2 = .ok response := by
    rcases response_succeeds ((Built.ofShards 1 {}).addSized hadd) hshards hcompiled e.counters with
      ⟨-, response, hrun⟩ | ⟨hfails, -⟩
    · exact ⟨response, congrArg Prod.fst hrun⟩
    · exact absurd ⟨⟨hsupplied, hresolves⟩, .inl hsame.enabled⟩ hfails
  refine ⟨e, e', hadd, hadd', hcompiled.accepted, by decide, ?_⟩
  obtain ⟨-, -, hagree | ⟨failure, -, hfailure, -⟩⟩ :=
    partition_invisible 1 2 {} 5 hdocs hadd hadd' hcompiled.accepted rfl rfl (by decide)
  · exact hagree
  · cases hresponse.symm.trans hfailure

end Engine

end FeatureRank
