import FeatureRank.Proofs.Json.Members
import FeatureRank.Proofs.Search.DerivedSums
import FeatureRank.Proofs.Search.DocumentLogs
import FeatureRank.Proofs.Search.Visiting

/-! # Logs of features — what a document says, whichever keys ask for it

    The values of features are logged for the documents that some keys stand for.  The
    hits stand in the order of the keys; the documents are scored in ascending order by
    one scorer for a segment, which stands still on a document that several keys ask
    for, and the log of each finds its way back to its hit.

    None of this is seen in the logs.  Without a score cache a visit leaves nothing to
    the next one (`RankingWeight.visitsThrough_none`), so the log of a hit is read off
    the vector of its document (`FeatureSet.logOf`), and this is the vector that a
    ranking pass over the shard gives to a ranker whose default is zero
    (`Shard.IsVectorOf`).  The logs are therefore the same for all lists of keys
    (`Engine.logs_by_document`). -/

namespace FeatureRank

open Tracked

/-! ## The log of a vector -/

/-- The key under which a feature of a compiled set asks that its value be logged once
    more, beside those of all features. -/
def Feature.logKey? : Feature → Option String
  | .derived _ sum => sum.logKey
  | .stored _ | .prebuilt .. => none

namespace FeatureSet

/-- The values that the features of a set ask to be logged once more, under their keys. -/
def beside (s : FeatureSet) (v : FeatureVector) : List (String × Float32) :=
  s.features.zipIdx.filterMap fun (f, i) => f.logKey?.map fun key => (key, v.get i)

/-- The log of a vector: an entry for each feature, with its value if it has one, and
    one more when a feature asks for it. -/
def logOf (s : FeatureSet) (missingAsZero : Bool) (v : FeatureVector) : List LogEntry :=
  s.features.zipIdx.map (fun (f, i) =>
      ⟨f.name, ((v.get? i).map LogValue.score).or
        (if missingAsZero then some (.score 0.0) else none)⟩) ++
    if s.features.all (·.logKey?.isNone) then []
    else [⟨LogEntry.extraName,
      some (.extra (Json.putAll [] ((s.beside v).map fun x => (x.1, .ofFloat32 x.2))))⟩]

/-- Nothing is left beside the values just when no feature asks for it. -/
theorem beside_eq_nil {s : FeatureSet} {v : FeatureVector} :
    s.beside v = [] ↔ s.features.all (·.logKey?.isNone) = true := by
  rw [beside, List.filterMap_eq_nil_iff, List.all_eq_true]
  simp only [Option.map_eq_none_iff, Option.isNone_iff_eq_none]
  constructor
  · intro h f hf
    obtain ⟨i, hi⟩ := List.mem_iff_getElem?.mp hf
    exact h (f, i) (List.mem_zipIdx_iff_getElem?.mpr hi)
  · exact fun h x hx => h x.1 (List.fst_mem_of_mem_zipIdx hx)

end FeatureSet

namespace LogRecorder

/-- What a log holds beside the values of the features are members that were put. -/
theorem extraOf_eq (extras : List (String × Float32)) :
    ∀ extra : Option (List (String × Json)), extraOf extras extra
      = if extras = [] then extra
        else some (Json.putAll (extra.getD []) (extras.map fun x => (x.1, .ofFloat32 x.2))) := by
  induction extras with
  | nil => exact fun _ => rfl
  | cons first rest ih =>
      intro extra
      show extraOf rest (some (Json.put first.1 (.ofFloat32 first.2) (extra.getD []))) = _
      rw [ih, if_neg (List.cons_ne_nil first rest)]
      split
      · next hrest => rw [hrest]; rfl
      · rfl

theorem reported_eq (r : LogRecorder) (value : Option Float32) :
    r.reported value
      = (value.map LogValue.score).or (if r.missingAsZero then some (.score 0.0) else none) := by
  cases value <;> rfl

/-- The values of a vector, read one by one under the names of the features. -/
theorem named_values_eq {s : FeatureSet} (missingAsZero : Bool) {v : FeatureVector}
    (hsize : v.size = s.size) :
    (s.names.zip v.values.toList).map (fun pair =>
        (⟨pair.1, reported { features := s.names, missingAsZero } pair.2⟩ : LogEntry))
      = s.features.zipIdx.map fun (f, i) =>
        ⟨f.name, ((v.get? i).map LogValue.score).or
          (if missingAsZero then some (.score 0.0) else none)⟩ := by
  refine List.ext_getElem? fun i => ?_
  rw [List.getElem?_map, List.getElem?_map, List.getElem?_zipIdx]
  cases hi : s.features[i]? with
  | none =>
      have hnone : (s.names.zip v.values.toList)[i]? = none := by
        rw [List.getElem?_eq_none_iff, List.length_zip, FeatureSet.names, List.length_map]
        exact Nat.le_trans (Nat.min_le_left _ _) (List.getElem?_eq_none_iff.mp hi)
      rw [hnone]
      rfl
  | some f =>
      have hlt : i < v.size := hsize ▸ (List.getElem?_eq_some_iff.mp hi).1
      have hname : s.names[i]? = some f.name := by
        rw [FeatureSet.names, List.getElem?_map, hi]
        rfl
      have hpair : (s.names.zip v.values.toList)[i]? = some (f.name, v.get? i) :=
        List.getElem?_zip_eq_some.mpr ⟨hname, FeatureVector.getElem?_values hlt⟩
      rw [hpair, Option.map_some, Option.map_some, Option.map_some, Nat.zero_add]
      exact congrArg (fun value => some (LogEntry.mk f.name value)) (reported_eq _ (v.get? i))

/-- **The entries of a scored document are the log of its vector**, when the features have
    left beside their values what they ask for. -/
theorem entriesFor_eq_logOf {s : FeatureSet} (missingAsZero : Bool) {scored : Scored}
    {v : FeatureVector} (hv : scored.features = some v) (hsize : v.size = s.size)
    (hextras : scored.extras = s.beside v) :
    ({ features := s.names, missingAsZero } : LogRecorder).entriesFor scored
      = s.logOf missingAsZero v := by
  unfold entriesFor entries FeatureSet.logOf
  rw [hv, extraOf_eq, hextras]
  refine congrArg₂ (· ++ ·) (named_values_eq missingAsZero hsize) ?_
  by_cases hnone : s.beside v = []
  · rw [if_pos hnone, if_pos (FeatureSet.beside_eq_nil.mp hnone)]
    rfl
  · rw [if_neg hnone, if_neg fun hall => hnone (FeatureSet.beside_eq_nil.mpr hall)]
    rfl

end LogRecorder

/-! ## What features leave beside their values -/

/-- A weight that leaves its value under a key, or leaves nothing. -/
def Weight.Leaves (w : Weight) : Option String → Prop
  | none => ∀ vector, w.extraOn vector = none
  | some key => ∃ sum : DerivedSum, w = .derived sum ∧ sum.logKey = some key

/-- **What the features of a document leave is in its vector**: each leaves the value that
    it has there in the end. -/
theorem RankingWeight.extras_collectOn (doc : List TermId) {keys : List (Option String)}
    {ws : List Weight} (h : List.Forall₂ (fun key w => w.Leaves key) keys ws) :
    ∀ (ordinal : Nat) (vector : FeatureVector), ordinal + ws.length ≤ vector.size →
      (collectOn doc ordinal vector ws).extras
        = (keys.zipIdx ordinal).filterMap fun (key, i) =>
          key.map fun key => (key, (collectOn doc ordinal vector ws).vector.get i) := by
  induction h with
  | nil => exact fun _ _ _ => rfl
  | @cons key w others rest hfirst _ ih =>
      intro ordinal vector hroom
      rw [List.length_cons] at hroom
      rw [List.zipIdx_cons]
      unfold collectOn
      cases key with
      | none =>
          have hnone : w.extraOn (some vector) = none := hfirst (some vector)
          by_cases hmatch : w.matchesDoc doc = true
          · simp only [hmatch, if_true, hnone]
            exact ih _ _ (by rw [FeatureVector.size_put]; omega)
          · simp only [hmatch]
            exact ih _ _ (by omega)
      | some key =>
          obtain ⟨sum, rfl, hkey⟩ := hfirst
          let value := sum.value (some vector)
          -- a sum matches every document, and nothing after it changes its value
          have hvalue : (collectOn doc (ordinal + 1) (vector.put ordinal value) rest).vector.get
              ordinal = value := by
            rw [FeatureVector.get, get?_collectOn_of_lt doc rest _ (Nat.lt_succ_self ordinal),
              FeatureVector.get?_put_self (by omega), Option.getD_some]
          have hextra : (Weight.derived sum).extraOn (some vector) = some (key, value) := by
            rw [Weight.extraOn, hkey]
            rfl
          simp only [Weight.matchesDoc, Weight.valueOn, if_true, hextra]
          refine (congrArg ((key, value) :: ·) (ih (ordinal + 1) (vector.put ordinal value)
            (by rw [FeatureVector.size_put]; omega))).trans ?_
          exact (List.filterMap_cons_some (by
            show some (key, FeatureVector.get _ ordinal) = some (key, value)
            rw [hvalue])).symm

namespace FeatureQuery

theorem Sumless.normal {q : FeatureQuery} (h : q.Sumless) : q.normal.Sumless := by
  induction q with
  | boost inner factor ih =>
      have hinner := ih h
      show (boosted factor inner.normal).Sumless
      unfold boosted
      split
      · trivial
      · split
        · exact hinner
        · exact hinner
  | derived sum => exact h.elim
  | bound sum => exact h.elim
  | anyTerm terms => cases terms <;> trivial
  | phrase terms => cases terms <;> trivial
  | languageModel terms => cases terms <;> trivial
  | constant score => trivial
  | nothing => trivial

/-- The weight of a query without sums leaves nothing beside its value. -/
theorem Sumless.leaves {q : FeatureQuery} (h : q.Sumless) {searcher : Searcher} {w : Weight}
    (hw : q.weight searcher = .ok w) : w.Leaves none := by
  induction q generalizing w with
  | boost inner factor ih =>
      unfold weight at hw
      split at hw
      · next v hv =>
          rw [← Except.ok.inj hw]
          exact fun vector => ih h hv vector
      · exact nomatch hw
  | derived sum => exact h.elim
  | bound sum => exact h.elim
  | _ =>
      rw [← Except.ok.inj hw]
      exact fun _ => rfl

end FeatureQuery

/-- **The weight of a compiled feature leaves what the feature asks for.** -/
theorem Feature.Compiled.leaves {feature : Feature} {features : Nat}
    (h : feature.Compiled features) {context : QueryContext} {params : Params} {q : FeatureQuery}
    (hq : feature.query context params = .ok q) {searcher : Searcher}
    (hfull : searcher.isEmpty = false) {count : Nat} {w : Weight}
    (hw : q.weightAlone searcher count = .ok w) : w.Leaves feature.logKey? := by
  obtain ⟨tied, htied, hmade⟩ := bind_eq_ok.mp hw
  rw [hfull] at hmade
  cases feature with
  | stored f =>
      rw [StoredFeature.bind_query hq] at htied
      rw [← Except.ok.inj htied] at hmade
      exact (StoredFeature.query_sumless hq).normal.leaves hmade
  | derived name sum =>
      obtain rfl := Except.ok.inj hq
      unfold FeatureQuery.bind at htied
      split at htied
      · exact nomatch htied
      · rw [← Except.ok.inj htied] at hmade
        rw [← Except.ok.inj hmade]
        show (Weight.derived sum.canonical).Leaves sum.logKey
        cases hkey : sum.logKey with
        | none =>
            intro vector
            rw [Weight.extraOn, show sum.canonical.logKey = none from hkey]
            rfl
        | some key => exact ⟨_, rfl, hkey⟩
  | prebuilt name query => exact h.elim

/-! ## Visits that leave nothing to each other -/

/-- **Without a score cache** a visit finds what the terms of its document say, however
    often the document was visited before. -/
theorem RankingWeight.visitsThrough_none (w : RankingWeight)
    {docAt : Nat → Option (List TermId)} {places : List (Nat × Nat)}
    (h : ∀ x ∈ places, (docAt x.1).isSome = true) :
    (QueryWeight.ranking w).visitsThrough docAt none places
      = places.map fun x => (x.2, w.scoredOn ((docAt x.1).getD []) none) := by
  induction places with
  | nil => rfl
  | cons x rest ih =>
      obtain ⟨hfirst, hrest⟩ := List.forall_mem_cons.mp h
      obtain ⟨doc, hdoc⟩ := Option.isSome_iff_exists.mp hfirst
      have hmatch : (docAt x.1).filter ((QueryWeight.ranking w).matchesDoc ·) = some doc := by
        rw [hdoc]
        rfl
      rw [(QueryWeight.visitThrough_cons hmatch none rest).1, QueryWeight.keptOn_none, ih hrest,
        List.map_cons, hdoc]
      rfl

/-! ## Logs of a shard -/

/-- The vector that ranking gives a document of a shard: whatever else a ranking query with
    these queries of features has, if its ranker has zero as default, a pass over the
    segment of the document with the statistics of the shard gives the ranker this vector. -/
def Shard.IsVectorOf (s : Shard) (queries : List FeatureQuery) (doc : Nat) (v : FeatureVector) :
    Prop :=
  ∀ q : RankingQuery, q.queries = queries → q.ranker.featureCount = queries.length →
    q.ranker.default = 0.0 →
    ∃ made w reader inside scores scored,
      q.weight { shard := s } .empty = (made, .ok w) ∧ s.locate? doc = some (reader, inside) ∧
      (QueryWeight.ranking w).pass reader (fun _ => true) none = .ok (scores, none) ∧
      scores.lookup inside = some scored ∧ scored.features = some v

/-- A document has one such vector. -/
theorem Shard.IsVectorOf.unique {s : Shard} {queries : List FeatureQuery} {doc : Nat}
    {v v' : FeatureVector} (h : s.IsVectorOf queries doc v) (h' : s.IsVectorOf queries doc v') :
    v = v' := by
  -- a query that asks for values only
  let q : RankingQuery := ⟨queries, ⟨"", []⟩, .null queries.length, 0⟩
  obtain ⟨_, w, reader, inside, scores, scored, hweight, hlocate, hpass, hscored, hv⟩ :=
    h q rfl rfl rfl
  obtain ⟨_, w', reader', inside', scores', scored', hweight', hlocate', hpass', hscored', hv'⟩ :=
    h' q rfl rfl rfl
  obtain rfl : w = w' := Except.ok.inj (Prod.mk.inj (hweight.symm.trans hweight')).2
  obtain ⟨rfl, rfl⟩ := Prod.mk.inj (Option.some.inj (hlocate.symm.trans hlocate'))
  obtain rfl : scores = scores' := (Prod.mk.inj (Except.ok.inj (hpass.symm.trans hpass'))).1
  obtain rfl : scored = scored' := Option.some.inj (hscored.symm.trans hscored')
  exact Option.some.inj (hv.symm.trans hv')

/-- The hits of a shard for some keys, in the order of these: one for each key that the
    shard has, on the first document with the key and with the log of this document. -/
def Shard.loggedHits (s : Shard) (place : Nat) (keys : List String) (name : String)
    (log : Nat → List LogEntry) : List SearchHit :=
  keys.filterMap fun key => (s.docOf? key).map fun doc =>
    { key, shard := place, doc, score := 0.0, logs := Std.TreeMap.empty.insert name (log doc) }

theorem Shard.loggedHits_eq (s : Shard) (place : Nat) (keys : List String) (name : String)
    (log : Nat → List LogEntry) : s.loggedHits place keys name log
      = (keys.filterMap fun key => (s.docOf? key).map fun doc =>
          ({ key, shard := place, doc, score := 0.0 } : SearchHit)).map
            fun hit => hit.withLogs [(name, log hit.doc)] := by
  rw [Shard.loggedHits, List.map_filterMap]
  refine List.filterMap_congr fun key _ => ?_
  rw [Option.map_map]
  rfl

section

variable {docs : List IndexedDocument} {s : Shard} {features : FeatureSet} {e : Engine}
  {params : Params} {queries : List FeatureQuery}

/-- The vector of a document by some weights, for a ranker with zero as default. -/
def Shard.vectorOn (docs : List IndexedDocument) (ws : List Weight) (doc : Nat) : FeatureVector :=
  (RankingWeight.collectOn ((termsAt docs doc).getD []) 0 (.ofSize ws.length 0.0) ws).vector

/-- Ranking gives a document the vector by the weights of the features. -/
theorem Shard.Holds.isVectorOf (hs : s.Holds docs) {made : WeightCache} {ws : List Weight}
    (hws : RankingQuery.featureWeights { shard := s } queries.length .empty queries
      = (made, .ok ws)) (hcount : ws.length = queries.length) {doc : Nat} {terms : List TermId}
    (hterms : termsAt docs doc = some terms) : s.IsVectorOf queries doc (vectorOn docs ws doc) := by
  intro q hqueries hfeatures hdefault
  obtain ⟨reader, chunk, place, hlocate, -, -⟩ := hs.place_of_terms hterms
  have hweight : q.weight { shard := s } .empty = (made, .ok ⟨ws, q.ranker, q.features⟩) :=
    RankingQuery.weight_of_featureWeights (by rw [hqueries, hfeatures, hws])
  let w : RankingWeight := ⟨ws, q.ranker, q.features⟩
  have hfits : (QueryWeight.ranking w).Fits none :=
    ⟨Nat.le_of_eq (hcount.trans hfeatures.symm), .none _⟩
  obtain ⟨scores, hpass, hscored⟩ := QueryWeight.pass_of_terms hs hfits hterms rfl hlocate
  have hempty : w.emptyVector = .ofSize ws.length 0.0 := by
    show FeatureVector.ofSize q.ranker.featureCount q.ranker.default = _
    rw [hfeatures, hdefault, hcount]
  refine ⟨made, w, reader, place + 1, scores, _, hweight, hlocate, hpass, hscored, ?_⟩
  show some (RankingWeight.collectOn terms 0 w.emptyVector ws).vector = _
  rw [hempty, vectorOn, hterms]
  rfl

/-- The first document with a key is held. -/
theorem Shard.Holds.docOf?_held (hs : s.Holds docs) {key : String} {doc : Nat}
    (h : s.docOf? key = some doc) : (termsAt docs doc).isSome = true ∧ s.docCount ≠ 0 := by
  have hterms : (termsAt docs doc).isSome = true := by
    rw [← hs.isSome_key?, (s.docOf?_eq_some_iff.mp h).1]
    rfl
  obtain ⟨terms, hat⟩ := Option.isSome_iff_exists.mp hterms
  obtain ⟨_, _, _, hlocate, -⟩ := hs.place_of_terms hat
  obtain ⟨hpos, hle⟩ := (hs.located_iff doc).mp (Option.isSome_of_eq_some hlocate)
  exact ⟨hterms, by omega⟩

/-- A slot whose query has its weight gets it, and counts nothing. -/
theorem Slot.weighted_eq_pure {slot : Slot} {searcher : Searcher} {settings : Settings}
    {mode : ScoreMode} {made : WeightCache} {weight : QueryWeight}
    (h : slot.query.weight searcher settings.enabled mode slot.weights = (made, .ok weight)) :
    slot.weighted searcher settings mode = pure ⟨{ slot with weights := made }, weight⟩ := by
  unfold weighted
  rw [h]
  rfl

/-- What a query that only logs makes of a document: the vector of the document, and what
    its features ask for beside it. -/
theorem Shard.scoredOn_logs {ws : List Weight} (hcount : ws.length = features.size)
    (hleaves : List.Forall₂ (fun (f : Feature) w => w.Leaves f.logKey?) features.features ws)
    (docs : List IndexedDocument) (n : Nat) :
    let w : RankingWeight := ⟨ws, RankingQuery.logRanker features, features⟩
    let scored := w.scoredOn ((termsAt docs n).getD []) none
    scored.features = some (vectorOn docs ws n) ∧
      scored.extras = features.beside (vectorOn docs ws n) := by
  intro w scored
  have hempty : w.emptyVector = .ofSize ws.length 0.0 := by
    rw [hcount]
    rfl
  have hvector : (w.gatheredOn ((termsAt docs n).getD []) none)
      = RankingWeight.collectOn ((termsAt docs n).getD []) 0 (.ofSize ws.length 0.0) ws := by
    rw [← hempty]
    rfl
  refine ⟨congrArg (fun c : RankingScorer.Collected => some c.vector) hvector, ?_⟩
  have hextras := RankingWeight.extras_collectOn ((termsAt docs n).getD [])
    (List.forall₂_map_left_iff.mpr hleaves) 0 (.ofSize ws.length 0.0)
    (by rw [FeatureVector.size_ofSize, Nat.zero_add])
  rw [List.zipIdx_map, List.filterMap_map] at hextras
  exact (congrArg RankingScorer.Collected.extras hvector).trans hextras

/-- **Visits to documents of a shard, recorded**: without a score cache the log of each
    place is that of its document. -/
theorem Shard.Holds.visit_logs (hs : s.Holds docs) {ws : List Weight}
    (hcount : ws.length = features.size)
    (hleaves : List.Forall₂ (fun (f : Feature) w => w.Leaves f.logKey?) features.features ws)
    (missingAsZero : Bool) {numbers : List Nat}
    (hin : ∀ n ∈ numbers, (termsAt docs n).isSome = true) :
    ∃ visits after finished,
      (QueryWeight.ranking ⟨ws, RankingQuery.logRanker features, features⟩).visit s numbers none
        = .ok (visits, after) ∧
      LogRecorder.recordVisits { features := features.names, missingAsZero } visits = .ok finished ∧
      finished.Writes numbers fun n => features.logOf missingAsZero (vectorOn docs ws n) := by
  let w : RankingWeight := ⟨ws, RankingQuery.logRanker features, features⟩
  let recorder : LogRecorder := { features := features.names, missingAsZero }
  have hplaces : (RankingWeight.placesOf numbers).Perm numbers.zipIdx :=
    List.mergeSort_perm numbers.zipIdx _
  have hsize : ∀ n, (vectorOn docs ws n).size = features.size := by
    intro n
    rw [vectorOn, RankingWeight.size_collectOn, FeatureVector.size_ofSize, hcount]
  have hfits : (QueryWeight.ranking w).Fits none := ⟨Nat.le_of_eq hcount, .none _⟩
  obtain ⟨visits, hvisits, herased⟩ := hs.visitThrough hfits numbers
  rw [w.visitsThrough_none fun x hx =>
    hin x.1 (List.fst_mem_of_mem_zipIdx (hplaces.mem_iff.mp hx))] at herased
  obtain ⟨finished, hrecord, htake⟩ := recorder.recordVisits_eq visits (by
    intro v hv
    have hmem : (v.1, v.2.2) ∈ visits.map fun v => (v.1, v.2.2) := List.mem_map.mpr ⟨v, hv, rfl⟩
    rw [herased] at hmem
    obtain ⟨x, -, hx⟩ := List.mem_map.mp hmem
    rw [← (Prod.mk.inj hx).2]
    refine ⟨_, (scoredOn_logs hcount hleaves docs x.1).1, (hsize x.1).trans ?_⟩
    exact (List.length_map _).symm)
  refine ⟨visits, _, finished, hvisits, hrecord, ?_⟩
  have hlogs : visits.map (fun v => (v.1, recorder.entriesFor v.2.2))
      = (RankingWeight.placesOf numbers).map fun x =>
        (x.2, features.logOf missingAsZero (vectorOn docs ws x.1)) := by
    have hpairs := congrArg (List.map fun v => (v.1, recorder.entriesFor v.2)) herased
    rw [List.map_map, List.map_map] at hpairs
    refine Eq.trans hpairs (List.map_congr_left fun x _ => ?_)
    obtain ⟨hvector, hextras⟩ := scoredOn_logs hcount hleaves docs x.1
    exact congrArg (Prod.mk x.2)
      (LogRecorder.entriesFor_eq_logOf missingAsZero hvector (hsize x.1) hextras)
  unfold LogRecorder.Writes
  rw [htake, hlogs]
  exact hplaces.map _

/-- **The values of features on one shard** are logged for the first document of each key
    that the shard has, in the order of the keys, and each log is that of the document. -/
theorem Engine.shardFeatures_eq (henabled : e.settings.enabled = true) (hs : s.Holds docs)
    (hqueries : features.queries ⟨some e.dictionary⟩ params = .ok queries)
    {made : WeightCache} {ws : List Weight}
    (hws : RankingQuery.featureWeights { shard := s } features.size .empty queries
      = (made, .ok ws)) (hcount : ws.length = features.size)
    (hleaves : s.docCount ≠ 0 →
      List.Forall₂ (fun (f : Feature) w => w.Leaves f.logKey?) features.features ws)
    (keys : List String) (missingAsZero : Bool) (place : Nat) :
    e.shardFeatures features params keys missingAsZero place s
      = pure (s.loggedHits place keys features.name fun doc =>
          features.logOf missingAsZero (Shard.vectorOn docs ws doc)) := by
  unfold shardFeatures
  extract_lets hits recorder
  have hresult : (s.loggedHits place keys features.name fun doc =>
        features.logOf missingAsZero (Shard.vectorOn docs ws doc))
      = hits.map fun hit => hit.withLogs
          [(features.name, features.logOf missingAsZero (Shard.vectorOn docs ws hit.doc))] :=
    s.loggedHits_eq place keys features.name _
  rw [hresult]
  split
  · next hnone =>
      rw [List.isEmpty_iff.mp hnone]
      rfl
  · next hsome =>
      have hheld : ∀ hit ∈ hits,
          (Shard.termsAt docs hit.doc).isSome = true ∧ s.docCount ≠ 0 := by
        intro hit hhit
        obtain ⟨key, -, hkey⟩ := List.mem_filterMap.mp hhit
        obtain ⟨doc, hdoc, rfl⟩ := Option.map_eq_some_iff.mp hkey
        exact hs.docOf?_held hdoc
      obtain ⟨hit, hhit⟩ := List.exists_mem_of_ne_nil hits (mt List.isEmpty_iff.mpr hsome)
      obtain ⟨visits, after, finished, hvisits, hrecord, hwrites⟩ :=
        hs.visit_logs hcount (hleaves (hheld hit hhit).2) missingAsZero
          (List.forall_mem_map.mpr fun hit hhit => (hheld hit hhit).1)
      have hquery : RankingQuery.ofFeatures features ⟨some e.dictionary⟩ params
          = .ok ⟨queries, features, RankingQuery.logRanker features, 0⟩ :=
        bind_eq_ok.mpr ⟨queries, hqueries, rfl⟩
      let query : RankingQuery := ⟨queries, features, RankingQuery.logRanker features, 0⟩
      have hweight : query.weight { shard := s } .empty
          = (made, .ok ⟨ws, query.ranker, features⟩) := RankingQuery.weight_of_featureWeights hws
      have hweighted : ({ query := .ranking query } : Slot).weighted { shard := s } e.settings
            .scores
          = pure ⟨{ query := .ranking query, weights := made },
            .ranking ⟨ws, query.ranker, features⟩⟩ :=
        Slot.weighted_eq_pure (by simp only [Query.weight, henabled, if_true, hweight])
      rw [hquery]
      show (({ query := .ranking query } : Slot).weighted { shard := s } e.settings .scores
        >>= fun w => _) = _
      rw [hweighted]
      show (Tracked.ofChecked ((QueryWeight.ranking ⟨ws, query.ranker, features⟩).visit s
        (hits.map (·.doc)) none) >>= fun x => _) = _
      rw [hvisits]
      show (Tracked.ofChecked (recorder.recordVisits visits) >>= fun x => _) = _
      rw [hrecord]
      exact congrArg (pure (f := Tracked)) (ShardRequest.attach_writes hwrites)

/-- **One shard logs by document**: there is a vector for each of its documents, the one that
    ranking gives it, and whichever keys are asked for, the logs are those of the vectors. -/
theorem Engine.shard_logs (hbuilt : s.Built) (henabled : e.settings.enabled = true)
    (hcompiled : ∀ feature ∈ features.features, feature.Compiled features.size)
    (hqueries : features.queries ⟨some e.dictionary⟩ params = .ok queries) :
    ∃ vectorOf : Nat → FeatureVector,
      (∀ keys missingAsZero place, e.shardFeatures features params keys missingAsZero place s
        = pure (s.loggedHits place keys features.name fun doc =>
            features.logOf missingAsZero (vectorOf doc))) ∧
      ∀ doc, (s.key? doc).isSome = true → s.IsVectorOf queries doc (vectorOf doc) := by
  obtain ⟨docs, hs⟩ := hbuilt.holds
  have hmade := mapM_eq_ok.mp hqueries
  have hlength : queries.length = features.size := hmade.length_eq.symm
  have hbind : ∀ q ∈ queries, ∃ tied, q.bind features.size = .ok tied := by
    intro q hq
    obtain ⟨feature, hfeature, hquery⟩ := forall₂_mem hmade.flip hq
    exact (hcompiled feature hfeature).bind hquery
  obtain ⟨made, ws, hws⟩ := RankingQuery.featureWeights_of_bind hbind { shard := s } .empty
  obtain ⟨hholds, -, hover⟩ := RankingQuery.featureWeights_eq_ok hws
  have hcount : ws.length = features.size := by rw [← hholds.length_eq, hlength]
  have hleaves : s.docCount ≠ 0 →
      List.Forall₂ (fun (f : Feature) w => w.Leaves f.logKey?) features.features ws := by
    intro hfull
    have hfaithful : made.Faithful { shard := s } := (WeightCache.Faithful.empty _).over hover
    refine forall₂_comp ((List.forall₂_and_left _ _).mpr ⟨fun f hf => hf, hmade⟩) hholds ?_
    rintro f q w ⟨hf, hq⟩ hw
    exact (hcompiled f hf).leaves hq (beq_eq_false_iff_ne.mpr hfull) (hw.weightAlone hfaithful)
  refine ⟨Shard.vectorOn docs ws, ?_, ?_⟩
  · intro keys missingAsZero place
    exact shardFeatures_eq henabled hs hqueries hws hcount hleaves keys missingAsZero place
  · intro doc hdoc
    rw [hs.isSome_key?] at hdoc
    obtain ⟨terms, hterms⟩ := Option.isSome_iff_exists.mp hdoc
    rw [← hlength] at hws hcount
    exact hs.isVectorOf hws hcount hterms

end

/-- **The log of a hit is that of its document.**  On an engine that documents built, for
    every compiled set of features whose queries can be made, there is a vector for each
    document of each shard, the one that ranking with the statistics of the shard gives it;
    and for every list of keys a hit is returned, shard by shard and in the order of the
    list, for each key that the shard has, on the first document with the key and with the
    log of the vector of this document. -/
theorem Engine.logs_by_document {e : Engine} (hbuilt : e.Built)
    (henabled : e.settings.enabled = true) {stored : StoredFeatureSet} {features : FeatureSet}
    (hfeatures : stored.compile = .ok features) {params : Params} {queries : List FeatureQuery}
    (hqueries : features.queries ⟨some e.dictionary⟩ params = .ok queries) :
    ∃ vectorOf : Shard → Nat → FeatureVector,
      (∀ keys missingAsZero, e.logFeatures features params keys missingAsZero
        = (e, .ok (e.shards.toList.zipIdx.flatMap fun (shard, place) =>
            shard.loggedHits place keys features.name fun doc =>
              features.logOf missingAsZero (vectorOf shard doc)))) ∧
      ∀ shard ∈ e.shards,
        (∀ key doc, shard.docOf? key = some doc ↔
          shard.key? doc = some key ∧ ∀ other, shard.key? other = some key → doc ≤ other) ∧
        ∀ doc, (shard.key? doc).isSome = true →
          shard.IsVectorOf queries doc (vectorOf shard doc) := by
  have hcompiled := StoredFeatureSet.compiled_of_compile hfeatures
  have : Nonempty FeatureVector := ⟨.ofSize 0 0.0⟩
  have hlogs := fun shard (hshard : shard ∈ e.shards) =>
    shard_logs (hbuilt shard hshard) henabled hcompiled hqueries
  choose! vectorOf hlogs hvectors using hlogs
  refine ⟨vectorOf, ?_, fun shard hshard =>
    ⟨fun _ _ => shard.docOf?_eq_some_iff, hvectors shard hshard⟩⟩
  intro keys missingAsZero
  have hshards : (e.shards.toList.zipIdx.mapM fun (shard, place) =>
        e.shardFeatures features params keys missingAsZero place shard)
      = e.shards.toList.zipIdx.mapM fun (shard, place) =>
        (pure (shard.loggedHits place keys features.name fun doc =>
          features.logOf missingAsZero (vectorOf shard doc)) : Tracked (List SearchHit)) := by
    refine mapM_congr (List.forall₂_same.mpr fun x hx => ?_)
    exact hlogs x.1 (Array.mem_toList_iff.mp (List.fst_mem_of_mem_zipIdx hx)) keys missingAsZero x.2
  unfold logFeatures
  rw [hshards, List.mapM_pure, pure_bind]
  rfl

/-- A key that is unknown, one that is asked for twice and one that two shards have, for a
    set with a feature that does not match and a sum that is logged once more. -/
theorem Engine.logs_by_document_repeated :
    let stored : StoredFeatureSet := ⟨"three", [⟨"rare", [], .anyTerm ""⟩,
      ⟨"two", [], .constant 2.0⟩, ⟨"six", [], .derived [⟨"two", 3.0⟩, ⟨"rare", 1.0⟩] 0.0 true⟩]⟩
    let first := (((Shard.empty.add "b" [1] 2).1.add "b" [2] 2).1.add "a" [2, 1] 2).1
    let second := (Shard.empty.add "a" [1] 2).1
    let e : Engine := { shards := #[first, second] }
    ∃ (features : FeatureSet) (log : Shard → Nat → List LogEntry), stored.compile = .ok features ∧
      e.logFeatures features [] ["b", "x", "a", "b"] true = (e, .ok (
        [("b", 0, 1, log first 1), ("a", 0, 3, log first 3), ("b", 0, 1, log first 1),
          ("a", 1, 1, log second 1)].map fun (key, shard, doc, log) =>
            { key, shard, doc, score := 0.0, logs := Std.TreeMap.empty.insert "three" log })) ∧
      log second 1 = [⟨"rare", some (.score 0.0)⟩, ⟨"two", some (.score 2.0)⟩,
        ⟨"six", some (.score 6.0)⟩, ⟨"extra_logging", some (.extra [("six", .ofFloat32 6.0)])⟩] := by
  intro stored first second e
  let features : FeatureSet := ⟨"three", [.stored ⟨"rare", [], .anyTerm ""⟩,
    .stored ⟨"two", [], .constant 2.0⟩, .derived "six" ⟨[(1, 3.0), (0, 1.0)], 0.0, some "six"⟩]⟩
  let queries : List FeatureQuery :=
    [.anyTerm [], .constant 2.0, .derived ⟨[(1, 3.0), (0, 1.0)], 0.0, some "six"⟩]
  have hfeatures : stored.compile = .ok features := rfl
  have hrare : (StoredFeature.mk "rare" [] (.anyTerm "")).query ⟨some e.dictionary⟩ []
      = .ok (.anyTerm []) := by
    simp [StoredFeature.query, StoredFeature.missing, StoredFeature.render, Piece.ofText,
      Piece.splitAtPair, Piece.fill, QueryContext.terms, Dictionary.known, Dictionary.id?, e]
  have hqueries : features.queries ⟨some e.dictionary⟩ [] = .ok queries :=
    mapM_eq_ok.mpr (.cons hrare (.cons rfl (.cons rfl .nil)))
  have hbuilt : e.Built := by
    intro shard hshard
    rcases List.mem_cons.mp (Array.mem_toList_iff.mpr hshard) with rfl | hshard
    · exact ((Shard.Built.empty.add "b" [1] 2).add "b" [2] 2).add "a" [2, 1] 2
    · rw [List.mem_singleton.mp hshard]
      exact Shard.Built.empty.add "a" [1] 2
  obtain ⟨vectorOf, hlogs, hdocs⟩ := Engine.logs_by_document hbuilt rfl hfeatures hqueries
  have hsecond : second ∈ e.shards :=
    Array.mem_toList_iff.mp (List.mem_cons_of_mem first List.mem_cons_self)
  refine ⟨features, fun shard doc => features.logOf true (vectorOf shard doc), hfeatures, ?_, ?_⟩
  · have hfound : first.docOf? "b" = some 1 ∧ first.docOf? "a" = some 3 ∧
        first.docOf? "x" = none := by
      simp [first, Shard.docOf?, Shard.add, Shard.empty, List.idxOf?, List.findIdx?_cons]
    have hfound' : second.docOf? "b" = none ∧ second.docOf? "a" = some 1 ∧
        second.docOf? "x" = none := by
      simp [second, Shard.docOf?, Shard.add, Shard.empty, List.idxOf?, List.findIdx?_cons]
    rw [hlogs]
    show (e, Except.ok (first.loggedHits 0 _ _ _ ++ (second.loggedHits 1 _ _ _ ++ []))) = _
    simp [Shard.loggedHits, hfound, hfound', features]
  · let ws : List Weight := [.nothing, .constant 2.0 true,
      .derived ⟨[(1, 3.0), (0, 1.0)], 0.0, some "six"⟩]
    have hholds : second.Holds [("a", [1])] := (Shard.Holds.empty.add "a" [1] 2).1
    have hvector : vectorOf second 1 = Shard.vectorOn [("a", [1])] ws 1 :=
      ((hdocs second hsecond).2 1 rfl).unique (hholds.isVectorOf rfl rfl rfl)
    have hvalues : (Shard.vectorOn [("a", [1])] ws 1).values = #[none, some 2.0, some 6.0] := by
      decide
    show features.logOf true (vectorOf second 1) = _
    rw [hvector]
    simp [FeatureSet.logOf, FeatureSet.beside, features, Feature.logKey?, Feature.name,
      FeatureVector.get, FeatureVector.get?, LogEntry.extraName, Json.putAll, Json.put, hvalues]

end FeatureRank
