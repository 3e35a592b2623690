import FeatureRank.Proofs.Search.Engine
import FeatureRank.Proofs.Search.Layout
import FeatureRank.Proofs.Search.SameDocuments

/-! # Segmentation is invisible

    Engines that lay out the same documents so, whatever segments they fell into,
    answer every request alike (`Engine.search_same`): with the same failure, or with
    the same number of hits and the same hits with their explanations and logs. -/

namespace FeatureRank

open Tracked

/-! ## The limit of segments

    A search reads what the settings say of ranking, never the limit of segments. -/

section

variable (settings : Settings) (limit : Nat)

theorem QueryRequest.slot_withLimit (dictionary : Dictionary) (query : QueryRequest) :
    query.slot dictionary { settings with segmentLimit := limit }
      = query.slot dictionary settings := by
  induction query with
  | boost inner factor ih =>
      unfold slot
      rw [ih]
  | byModel model params caching => rfl
  | prebuilt model => rfl
  | anyTerm text => rfl
  | phrase text => rfl

theorem ShardRequest.ofRequest_withLimit (dictionary : Dictionary) (request : SearchRequest) :
    ofRequest dictionary { settings with segmentLimit := limit } request
      = ofRequest dictionary settings request := by
  have hstage : stage dictionary { settings with segmentLimit := limit }
      = stage dictionary settings := by
    funext s
    cases s with
    | query query queryWeight rescoreWeight window =>
        simp only [stage, QueryRequest.slot_withLimit]
    | scale factor window => rfl
  unfold ofRequest
  simp only [QueryRequest.slot_withLimit, hstage]

theorem WeightedSlot.scoreSegments_withLimit (filter : Option QueryWeight)
    (readers : List SegmentReader) : ∀ slots : List WeightedSlot,
      scoreSegments { settings with segmentLimit := limit } filter readers slots
        = scoreSegments settings filter readers slots := by
  induction readers with
  | nil => exact fun _ => rfl
  | cons reader rest ih =>
      intro slots
      unfold scoreSegments
      simp only [ih]
      rfl

theorem Slot.scoreAll_withLimit (searcher : Searcher) (filter : Option Slot) (slots : List Slot) :
    scoreAll searcher { settings with segmentLimit := limit } filter slots
      = scoreAll searcher settings filter slots := by
  unfold scoreAll
  simp only [WeightedSlot.scoreSegments_withLimit]
  rfl

theorem Rescore.applyAll_withLimit (searcher : Searcher) (stages : List (Rescore Slot)) :
    ∀ (settings : Settings) (hits : List ShardHit),
      applyAll searcher { settings with segmentLimit := limit } stages hits
        = applyAll searcher settings stages hits := by
  induction stages with
  | nil => exact fun _ _ => rfl
  | cons first rest ih =>
      intro settings hits
      have hfirst : apply searcher { settings.under 0 with segmentLimit := limit } hits first
          = apply searcher (settings.under 0) hits first := by
        cases first <;> rfl
      have hrest : ∀ between,
          applyAll searcher { settings.under 1 with segmentLimit := limit } rest between
            = applyAll searcher (settings.under 1) rest between := ih (settings.under 1)
      unfold applyAll
      show (apply searcher { settings.under 0 with segmentLimit := limit } hits first
        >>= fun x => applyAll searcher { settings.under 1 with segmentLimit := limit } rest x.2
          >>= _) = _
      simp only [hfirst, hrest]

theorem ShardRequest.rescoreLogs_withLimit (searcher : Searcher) (docs : List Nat)
    (loggers : List Logger) :
    ∀ (weights : WeightCache) (r : ShardRequest),
      rescoreLogs searcher { settings with segmentLimit := limit } docs loggers weights r
        = rescoreLogs searcher settings docs loggers weights r := by
  induction loggers with
  | nil => exact fun _ _ => rfl
  | cons first rest ih =>
      intro weights r
      unfold rescoreLogs
      simp only [ih]
      rfl

theorem Engine.scoreParts_withLimit (global : Option GlobalStatistics) (parts : Parts) :
    scoreParts { settings with segmentLimit := limit } global parts
      = scoreParts settings global parts := by
  induction parts with
  | nil => rfl
  | cons part rest ih =>
      have hscore : part.2.2.score ⟨part.2.1, global⟩
            { settings.under part.1 with segmentLimit := limit }
          = part.2.2.score ⟨part.2.1, global⟩ (settings.under part.1) := by
        unfold ShardRequest.score
        simp only [Slot.scoreAll_withLimit, Rescore.applyAll_withLimit]
      unfold scoreParts
      show (part.2.2.score ⟨part.2.1, global⟩ { settings.under part.1 with segmentLimit := limit }
        >>= _) = _
      simp only [hscore, ih]

theorem Engine.fetch_withLimit (global : Option GlobalStatistics) (explain : Bool) (shard : Shard)
    (r : ShardRequest) (hits : List SearchHit) :
    fetch { settings with segmentLimit := limit } global explain shard r hits
      = fetch settings global explain shard r hits := by
  unfold fetch ShardRequest.log ShardRequest.recorders
  simp only [ShardRequest.rescoreLogs_withLimit]
  rfl

end

/-- **The limit of segments is not read by searches.** -/
theorem Engine.response_withLimit (e : Engine) (limit : Nat) (request : SearchRequest) :
    (e.withLimit limit).response request = e.response request := by
  have hparts : (e.withLimit limit).parts request = e.parts request := by
    unfold parts withLimit
    simp only [ShardRequest.ofRequest_withLimit]
  unfold response
  rw [hparts]
  simp only [withLimit, scoreParts_withLimit, fetch_withLimit]
  rfl

/-! ## Parts of the same documents -/

namespace Engine

/-- Parts of a request at one place, for shards of the same documents. -/
structure Twins (part part' : Nat × Shard × ShardRequest) : Prop where
  place : part.1 = part'.1
  request : part.2.2 = part'.2.2
  fits : part.2.2.Fits
  documents : ∃ docs, part.2.1.Holds docs ∧ part'.2.1.Holds docs

theorem hitsOf_same {docs : List IndexedDocument} {a b : Shard} (ha : a.Holds docs)
    (hb : b.Holds docs) (place : Nat) (hits : List ShardHit) :
    hitsOf place a hits = hitsOf place b hits := by
  have hkey : ∀ doc, a.key? doc = b.key? doc := by
    intro doc
    cases doc with
    | zero => rfl
    | succ index => rw [ha.key? index, hb.key? index]
  unfold hitsOf
  simp only [hkey]

/-- **Scoring all parts** gives the same hits for shards of the same documents. -/
theorem scoreParts_twins {settings : Settings} {global : Option GlobalStatistics}
    {parts parts' : Parts} (h : List.Forall₂ Twins parts parts') :
    Matches (fun x y => List.Forall₂ Twins x.1 y.1 ∧ x.2 = y.2)
      (scoreParts settings global parts) (scoreParts settings global parts') := by
  refine scoreParts_matches ?_ h
  rintro ⟨place, shard, r⟩ ⟨place', shard', r'⟩ ⟨hplace, hrequest, hfits, docs, hshard, hshard'⟩
  obtain rfl : place = place' := hplace
  obtain rfl : r = r' := hrequest
  rw [ShardRequest.score_same hshard hshard' global _ hfits]
  refine .self fun scored hyields => ?_
  have hafter := (ShardRequest.score_fits hshard' hfits hyields).1
  exact ⟨⟨rfl, rfl, hafter, docs, hshard, hshard'⟩, hitsOf_same hshard hshard' place scored.2⟩

/-- **Fetching hits** gives the same for shards of the same documents. -/
theorem fetch_twins {settings : Settings} {global : Option GlobalStatistics} {explain : Bool}
    {part part' : Nat × Shard × ShardRequest} (h : Twins part part') {hits : List SearchHit}
    (hhits : (hits.map (·.doc)).Nodup) :
    fetch settings global explain part.2.1 part.2.2 hits
      = fetch settings global explain part'.2.1 part'.2.2 hits := by
  obtain ⟨-, hrequest, hfits, docs, hshard, hshard'⟩ := h
  rw [← hrequest]
  unfold fetch
  cases explain with
  | false => exact ShardRequest.log_same hshard hshard' settings hfits hhits
  | true =>
      simp only [ShardRequest.explain_same hshard hshard' global settings hfits, if_true]
      refine bind_congr_yields fun shown hshown => ?_
      rw [explained_docs hshown] at hhits
      exact ShardRequest.log_same hshard hshard' settings hfits hhits

/-- **A part of a request for each shard**, the same for engines that lay out the
    same documents so. -/
theorem parts_twins {e e' : Engine} {l : Layout} (h : e.Has l) (h' : e'.Has l)
    (hsettings : e.settings = e'.settings) {request : SearchRequest}
    (hrequest : request.Accepted) :
    Matches (List.Forall₂ Twins) (e.parts request) (e'.parts request) := by
  have hshards : ∀ {contents : List (List IndexedDocument)} {shards shards' : List Shard} (n : Nat),
      List.Forall₂ (fun docs s => s.Holds docs) contents shards →
      List.Forall₂ (fun docs s => s.Holds docs) contents shards' →
      List.Forall₂ (fun x y => x.2 = y.2 ∧ ∃ docs, x.1.Holds docs ∧ y.1.Holds docs)
        (shards.zipIdx n) (shards'.zipIdx n) := by
    intro contents shards shards' n hholds
    induction hholds generalizing shards' n with
    | nil =>
        intro hnil
        cases hnil
        exact .nil
    | @cons docs s contents shards hfirst _ ih =>
        intro hholds'
        cases hholds' with
        | cons hfirst' hrest' => exact .cons ⟨rfl, docs, hfirst, hfirst'⟩ (ih (n + 1) hrest')
  unfold parts
  refine Matches.mapM ((hshards 0 h.contents h'.contents).imp ?_)
  rintro ⟨shard, place⟩ ⟨shard', place'⟩ ⟨hplace, docs, hshard, hshard'⟩
  obtain rfl : place = place' := hplace
  rw [h.dictionary, h'.dictionary, hsettings]
  refine (Matches.of_eq rfl).bind ?_
  rintro r _ rfl hr _
  exact .pure ⟨rfl, rfl, ShardRequest.ofRequest_fits hrequest hr, docs, hshard, hshard'⟩

theorem globalOf_twins {e e' : Engine} {l : Layout} (h : e.Has l) (h' : e'.Has l)
    (request : SearchRequest) {parts parts' : Parts} (hparts : List.Forall₂ Twins parts parts') :
    e.globalOf request parts = e'.globalOf request parts' := by
  have hterms : parts.flatMap (fun part => part.2.2.terms)
      = parts'.flatMap fun part => part.2.2.terms := by
    induction hparts with
    | nil => rfl
    | cons hfirst _ ih => rw [List.flatMap_cons, List.flatMap_cons, ih, hfirst.request]
  unfold globalOf
  rw [h.collect, h'.collect]
  exact congrArg (fun terms => if request.global then
    some (GlobalStatistics.ofDocs l.contents.flatten (distinctTerms terms)) else none) hterms

/-- The best hits that a shard has among all are different documents. -/
theorem best_nodup {e : Engine} {l : Layout} (h : e.Has l) {request : SearchRequest}
    (hrequest : request.Accepted) {parts after : Parts} {candidates : List SearchHit}
    (hparts : (e.parts request).Yields parts) {global : Option GlobalStatistics}
    (hscored : (scoreParts e.settings global parts).Yields (after, candidates)) (size : Nat) :
    ∀ part ∈ after, ((((SearchHit.sort candidates).take size).filter
      (·.shard == part.1)).map (·.doc)).Nodup := by
  intro part hpart
  obtain ⟨r, hits, -, hmember, hr, hscore, hfilter⟩ := scored_part hparts hscored hpart
  obtain ⟨docs, -, hholds⟩ := forall₂_mem h.contents.flip (Array.mem_toList_iff.mpr hmember)
  have hnodup := (ShardRequest.score_fits hholds (ShardRequest.ofRequest_fits hrequest hr) hscore).2
  exact nodup_of_subperm (best_subperm hfilter size) hnodup

/-- **Responses** match for engines that lay out the same documents so. -/
theorem response_twins {e e' : Engine} {l : Layout} (h : e.Has l) (h' : e'.Has l)
    (hsettings : e.settings = e'.settings) {request : SearchRequest}
    (hrequest : request.Accepted) :
    Matches Eq (e.response request) (e'.response request) := by
  unfold response
  refine (parts_twins h h' hsettings hrequest).bind ?_
  intro parts parts' hparts hyields _
  simp only [globalOf_twins h h' request hparts, ← hsettings]
  refine Matches.bind (R := fun x y => (List.Forall₂ Twins x.1 y.1 ∧ x.2 = y.2))
    (scoreParts_twins hparts) ?_
  rintro ⟨after, candidates⟩ ⟨after', candidates'⟩ ⟨hafter, hcandidates⟩ hscored _
  obtain rfl : candidates = candidates' := hcandidates
  have hfetched : after.mapM (fun part =>
        fetch e.settings (e'.globalOf request parts') request.explain part.2.1 part.2.2
          (((SearchHit.sort candidates).take request.size).filter (·.shard == part.1)))
      = after'.mapM fun part =>
        fetch e.settings (e'.globalOf request parts') request.explain part.2.1 part.2.2
          (((SearchHit.sort candidates).take request.size).filter (·.shard == part.1)) := by
    have hnodup := best_nodup h hrequest hyields hscored request.size
    refine mapM_congr (((List.forall₂_and_left _ _).mpr ⟨hnodup, hafter⟩).imp ?_)
    rintro ⟨place, part⟩ ⟨place', part'⟩ ⟨hpart, htwins⟩
    obtain rfl : place = place' := htwins.place
    exact fetch_twins htwins hpart
  exact (Matches.of_eq hfetched).bind fun fetched _ hsame _ _ => .pure (by rw [hsame])

/-- Engines of the same documents, laid out so, answer a request alike. -/
theorem search_same {e e' : Engine} {l : Layout} (h : e.Has l) (h' : e'.Has l)
    (hbesides : e.SameBesides e') {request : SearchRequest} (hrequest : request.Accepted) :
    (e.search request).2 = (e'.search request).2 := by
  have hplain : ∀ {e : Engine}, e.Has l → (e.withLimit 0).Has l := fun h => ⟨h.dictionary, h.contents⟩
  have hsettings : (e.withLimit 0).settings = (e'.withLimit 0).settings := by
    show (⟨e.settings.enabled, e.settings.cachesScores, 0, e.settings.nan⟩ : Settings)
      = ⟨e'.settings.enabled, e'.settings.cachesScores, 0, e'.settings.nan⟩
    rw [hbesides.enabled, hbesides.cachesScores, hbesides.nan]
  have hmatch := response_twins (hplain h) (hplain h') hsettings hrequest
  rw [response_withLimit, response_withLimit] at hmatch
  have hends := (hmatch e.counters).2.eq
  show ((ExceptT.run (e.response request)).run e.counters).1
    = ((ExceptT.run (e'.response request)).run e'.counters).1
  rw [hbesides.counters]
  exact hends

/-- **Segmentation is invisible**: two engines that get the same documents for the same
    shards, whatever limits their segments have at each document, give every document
    the same place and answer every request alike. -/
theorem segments_invisible (count : Nat) (settings : Settings) (limit : Nat)
    (docs : List (SourceDocument × Nat × Nat)) {e e' : Engine} {places places' : List (Nat × Nat)}
    (h : (ofShards count settings).addSized (docs.map fun x => (x.1, x.2.1)) = .ok (e, places))
    (h' : (ofShards count { settings with segmentLimit := limit }).addSized
      (docs.map fun x => (x.1, x.2.2)) = .ok (e', places'))
    {request : SearchRequest} (hrequest : request.Accepted) :
    places = places' ∧ (e.search request).2 = (e'.search request).2 := by
  have hshards := Layout.contents_ofShards_ne_nil count
  obtain ⟨last, hadd, hlast, hbesides⟩ := (Has.ofShards count settings).addSized
    (docs.map fun x => (x.1, x.2.1)) hshards
  obtain ⟨last', hadd', hlast', hbesides'⟩ :=
    (Has.ofShards count { settings with segmentLimit := limit }).addSized
      (docs.map fun x => (x.1, x.2.2)) hshards
  obtain ⟨rfl, rfl⟩ := Prod.mk.inj (Except.ok.inj (h.symm.trans hadd))
  obtain ⟨rfl, rfl⟩ := Prod.mk.inj (Except.ok.inj (h'.symm.trans hadd'))
  rw [List.map_map] at hlast hlast' ⊢
  rw [List.map_map]
  exact ⟨rfl, search_same hlast hlast' ⟨hbesides'.counters.trans hbesides.counters.symm,
    hbesides'.enabled.trans hbesides.enabled.symm,
    hbesides'.cachesScores.trans hbesides.cachesScores.symm,
    hbesides'.nan.trans hbesides.nan.symm⟩ hrequest⟩

/-- Two documents in two segments and in one, asked for with a log, an explanation and
    a rescore stage. -/
theorem segments_invisible_two :
    let model : Model :=
      ⟨"m", ⟨"m", [.prebuilt "rare" .nothing, .prebuilt "two" (.constant 2.0)]⟩,
        .linear "m" [1.0, 1.0] 0.5, 0⟩
    let docs : List (SourceDocument × Nat × Nat) :=
      [(⟨"a", "", none⟩, 1, 2), (⟨"b", "", none⟩, 1, 2)]
    let request : SearchRequest := {
      queries := [(some "q", .byModel model [] (some true))]
      rescores := [.query (.boost (.prebuilt model) 3.0) 1.0 2.0 1]
      logs := [{ name := some "log", namedQuery := some "q" }]
      explain := true }
    ∃ e e' places,
      (ofShards 1).addSized (docs.map fun x => (x.1, x.2.1)) = .ok (e, places) ∧
      (ofShards 1 { segmentLimit := 5 }).addSized (docs.map fun x => (x.1, x.2.2))
        = .ok (e', places) ∧
      e.shards.map (·.segments.size) = #[2] ∧ e'.shards.map (·.segments.size) = #[1] ∧
      request.Accepted ∧ (e.search request).2 = (e'.search request).2 := by
  intro model docs request
  have haccepted : request.Accepted := by
    refine ⟨?_, ?_⟩
    · intro x hmem
      rw [List.mem_singleton.mp hmem]
      rfl
    · intro stage hmem query hquery
      rw [List.mem_singleton.mp hmem] at hquery
      rw [← Option.some.inj hquery]
      rfl
  refine ⟨_, _, _, rfl, rfl, by decide +kernel, by decide +kernel, haccepted, ?_⟩
  exact (segments_invisible 1 {} 5 docs rfl rfl haccepted).2

end Engine

end FeatureRank
