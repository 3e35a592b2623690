import FeatureRank.Proofs.Index.Addresses
import FeatureRank.Proofs.Ranking.Scorer
import FeatureRank.Proofs.Search.Compiled

/-! # Derived features — their definition holds of the finished vector

    A derived feature is scored while the vector of its document is still being
    filled, and reads there what the features before it have left.  Its definition
    speaks of the whole vector (`StoredFeatureSet.Derives`): by names, not ordinals,
    and of the values that the ranker sees.

    The two agree.  Compiling a set resolves each name to the ordinal that has it,
    which lies before the feature (`StoredFeatureSet.compileFrom_getElem?`); tying and
    the canonical form keep the sum up to the sign of its zeros
    (`WeightCache.Holds.derived`); and each ordinal is written once, so what was read
    is what stays (`DerivedSum.value_below`). -/

namespace FeatureRank

/-! ## The definition -/

namespace StoredFeatureSet

def names (s : StoredFeatureSet) : List String := s.features.map (·.name)

/-- The value of a derived feature by its definition: the constant, and to it for each
    input in order the weight times what the feature of that name reads as. -/
def sumOver (s : StoredFeatureSet) (v : FeatureVector) (constant : Float32)
    (inputs : List DerivedInput) : Float32 :=
  inputs.foldl
    (fun sum input =>
      sum + Number.unsignedZero input.weight * v.get (s.names.idxOf input.feature))
    (Number.unsignedZero constant)

/-- A vector that holds a value for each derived feature of a set, the one of its
    definition; and the definition reads features before it only. -/
def Derives (s : StoredFeatureSet) (v : FeatureVector) : Prop :=
  ∀ i f inputs constant logged, s.features[i]? = some f →
    f.template = .derived inputs constant logged →
      (∀ input ∈ inputs, s.names.idxOf input.feature < i) ∧
      v.get? i = some (s.sumOver v constant inputs)

/-! ## Compiling it -/

/-- A feature is compiled with the names of those before it. -/
theorem compileFrom_getElem? {stored : List StoredFeature} {f : StoredFeature} {i : Nat} :
    ∀ {earlier : List String} {features : List Feature},
      compileFrom earlier stored = .ok features → stored[i]? = some f →
      ∃ feature, features[i]? = some feature ∧
        compileFeature (earlier ++ (stored.take i).map (·.name)) f = .ok feature := by
  induction stored generalizing i with
  | nil => exact fun _ hi => nomatch hi
  | cons first rest ih =>
      intro earlier features h hi
      obtain ⟨feature, hfeature, h⟩ := bind_eq_ok.mp h
      obtain ⟨others, hothers, h⟩ := bind_eq_ok.mp h
      rw [← Except.ok.inj h]
      cases i with
      | zero =>
          obtain rfl := Option.some.inj hi
          refine ⟨feature, rfl, ?_⟩
          rw [List.take_zero, List.map_nil, List.append_nil]
          exact hfeature
      | succ i =>
          obtain ⟨later, hlater, hcompiled⟩ := ih hothers hi
          refine ⟨later, hlater, ?_⟩
          rw [List.take_succ_cons, List.map_cons, List.append_cons]
          exact hcompiled

/-- A name that resolves among the first names has its ordinal among all. -/
theorem idxOf_of_take {names : List String} {name : String} {i ordinal : Nat}
    (h : (names.take i).idxOf? name = some ordinal) :
    names.idxOf name = ordinal ∧ ordinal < i := by
  have hfirst := List.findIdx?_eq_some_iff_getElem.mp h
  obtain ⟨hlt, -, -⟩ := hfirst
  have hmem : name ∈ names.take i := by
    by_contra hnot
    rw [List.idxOf?_eq_none_iff.mpr hnot] at h
    exact nomatch h
  have hordinal : (names.take i).idxOf name = ordinal := by
    rw [List.idxOf_eq_getD_idxOf?, h, Option.getD_some]
  refine ⟨?_, by rw [List.length_take] at hlt; omega⟩
  rw [← List.take_append_drop i names, List.idxOf_append_of_mem hmem, hordinal]

/-- A derived feature is compiled to the sum over the ordinals of its inputs. -/
theorem compileFeature_derived {earlier : List String} {f : StoredFeature} {feature : Feature}
    (h : compileFeature earlier f = .ok feature) {inputs : List DerivedInput}
    {constant : Float32} {logged : Bool} (htemplate : f.template = .derived inputs constant logged) :
    ∃ sum : DerivedSum, feature = .derived f.name sum ∧
      (sum.constant = constant ∧ sum.logKey = if logged then some f.name else none) ∧
      List.Forall₂ (fun input x => earlier.idxOf? input.feature = some x.1 ∧ x.2 = input.weight)
        inputs sum.inputs := by
  unfold compileFeature at h
  rw [htemplate] at h
  obtain ⟨resolved, hresolved, h⟩ := bind_eq_ok.mp h
  exact ⟨_, (Except.ok.inj h).symm, ⟨rfl, rfl⟩, resolve_eq_ok hresolved⟩

/-- **A compiled set has a sum for each derived feature**, over the ordinals of the names
    that its definition reads, all of them before its own. -/
theorem compile_derived {s : StoredFeatureSet} {compiled : FeatureSet}
    (h : s.compile = .ok compiled) {i : Nat} {f : StoredFeature} {inputs : List DerivedInput}
    {constant : Float32} {logged : Bool} (hi : s.features[i]? = some f)
    (htemplate : f.template = .derived inputs constant logged) :
    ∃ sum : DerivedSum, compiled.features[i]? = some (.derived f.name sum) ∧
      (sum.constant = constant ∧ sum.logKey = if logged then some f.name else none) ∧
      List.Forall₂ (fun input x => s.names.idxOf input.feature = x.1 ∧ x.1 < i ∧
        x.2 = input.weight) inputs sum.inputs := by
  obtain ⟨features, hfeatures, hmake⟩ := bind_eq_ok.mp h
  obtain ⟨feature, hfeature, hcompiled⟩ := compileFrom_getElem? hfeatures hi
  obtain ⟨sum, rfl, hkept, hinputs⟩ := compileFeature_derived hcompiled htemplate
  rw [List.nil_append, List.map_take] at hinputs
  refine ⟨sum, by rw [FeatureSet.features_of_make hmake, hfeature], hkept, hinputs.imp ?_⟩
  intro input x hx
  obtain ⟨hordinal, hlt⟩ := idxOf_of_take hx.1
  exact ⟨hordinal, hlt, hx.2⟩

end StoredFeatureSet

/-! ## Its value -/

/-- A derived feature matches every document of a segment. -/
theorem Weight.scoreAt_derived {segment : Segment} {doc : Nat} (hpos : 0 < doc)
    (hle : doc ≤ segment.maxDoc) (sum : DerivedSum) (vector : Option FeatureVector) :
    (Weight.derived sum).scoreAt segment doc vector = .ok (some (sum.value vector)) := by
  have hstop : (AllDocs.advance doc { maxDoc := segment.maxDoc }).stop = .doc doc := by
    rw [AllDocs.advance, Nat.max_eq_left hpos, if_neg (Nat.not_lt.mpr hle)]
  have hscorer : (Weight.derived sum).scorerAt? segment doc
      = some (.derived (AllDocs.advance doc { maxDoc := segment.maxDoc }) sum) :=
    Option.filter_eq_some_iff.mpr ⟨rfl, decide_eq_true hstop⟩
  exact scoreAt_of_some hscorer rfl

/-- What a sum reads below its own ordinal is what it reads there in the end. -/
theorem DerivedSum.value_below {s : StoredFeatureSet} {i : Nat} {inputs : List DerivedInput}
    {sum : DerivedSum} (hinputs : List.Forall₂ (fun input x =>
      s.names.idxOf input.feature = x.1 ∧ x.1 < i ∧ x.2 = input.weight) inputs sum.inputs)
    (v : FeatureVector) :
    sum.canonical.value (some (v.below i)) = s.sumOver v sum.constant inputs := by
  obtain ⟨resolved, constant, key⟩ := sum
  replace hinputs : List.Forall₂ _ inputs resolved := hinputs
  unfold value StoredFeatureSet.sumOver canonical
  generalize Number.unsignedZero constant = start
  induction hinputs generalizing start with
  | nil => rfl
  | @cons input x _ _ hfirst _ ih =>
      obtain ⟨hordinal, hlt, hweight⟩ := hfirst
      have hread : (v.below i).get x.1 = v.get x.1 := by
        rw [FeatureVector.get, FeatureVector.get?_below, if_pos hlt]
        rfl
      simp only [List.map_cons, List.foldl_cons, Option.map_some, Option.getD_some]
      rw [hread, hweight, hordinal]
      exact ih _

/-! ## Its weight -/

namespace WeightCache

/-- A cache whose weights were made by searchers, whichever made which. -/
def Sound (c : WeightCache) : Prop :=
  ∀ key w, (key, w) ∈ c.entries → ∃ searcher, key.weight searcher = .ok w

theorem Sound.empty : Sound .empty := fun _ _ h => nomatch h

theorem Sound.over {searcher : Searcher} {more c : WeightCache} (h : c.Sound)
    (hmore : more.MadeOver searcher c) : more.Sound :=
  fun key w hmem => (hmore key w hmem).elim (h key w) fun hw => ⟨searcher, hw⟩

/-- **The weight of a derived feature is its sum**, up to the sign of zeros, whichever
    searcher made it. -/
theorem Holds.derived {c : WeightCache} (hc : c.Sound) {features : Nat} {sum : DerivedSum}
    {w : Weight} (h : c.Holds false features (.derived sum) w) : w = .derived sum.canonical := by
  obtain ⟨tied, htied, hget⟩ := h
  unfold FeatureQuery.bind at htied
  split at htied
  · exact nomatch htied
  · rw [← Except.ok.inj htied] at hget
    obtain ⟨before, after, hentries, -⟩ := List.lookup_eq_some_iff.mp hget
    obtain ⟨searcher, hw⟩ := hc (.bound sum.canonical) w
      (hentries ▸ List.mem_append_right _ List.mem_cons_self)
    exact (Except.ok.inj hw).symm

end WeightCache

/-- The query of a compiled derived feature is its sum. -/
theorem RankingQuery.query_derived {model : Model} {context : QueryContext} {params : Params}
    {q : RankingQuery} (h : ofModel model context params = .ok q) {i : Nat} {name : String}
    {sum : DerivedSum} (hi : model.features.features[i]? = some (.derived name sum)) :
    q.queries[i]? = some (.derived sum) := by
  obtain ⟨queries, hqueries, h⟩ := bind_eq_ok.mp h
  obtain ⟨query, hquery, hmade⟩ := forall₂_getElem? (mapM_eq_ok.mp hqueries) hi
  rw [← Except.ok.inj h, hquery, ← Except.ok.inj hmade]

/-! ## On the vector -/

/-- **Derived features hold on the finished vector.**  For every model that a file was
    compiled to, wherever a scorer of it stands on a document whose scores are not held,
    the vector that the ranker is given has a value for each derived feature, and it is
    the one of its definition over the very values of that vector. -/
theorem ModelFile.derives {file : ModelFile} {compilation : Nat} {model : Model}
    (hmodel : file.compile compilation = .ok model) {context : QueryContext} {params : Params}
    {q : RankingQuery} (hquery : RankingQuery.ofModel model context params = .ok q)
    {searcher : Searcher} (hshard : searcher.shard.Built) {cache made : WeightCache}
    (hcache : cache.Sound) {w : RankingWeight}
    (hweight : q.weight searcher cache = (made, .ok w)) {reader : SegmentReader}
    (hreader : reader ∈ searcher.shard.readers) {scores : Option ScoreCache}
    {s : RankingScorer} (hreached : RankingScorer.Reached w reader scores s) {doc : Nat}
    (hstop : DocWalk.stop s = .doc doc) (hpos : 0 < doc) (hlive : s.walk.isHeld doc = false) :
    ∃ s' scored v, s.score = .ok (s', scored) ∧ scored.features = some v ∧
      scored.value = model.ranker.score v ∧ v.default = model.ranker.default ∧
      file.features.Derives v := by
  obtain ⟨hcompiled, haccepted⟩ := ModelFile.compile_eq_ok hmodel
  obtain ⟨hranker, -, hcount, hlength⟩ := RankingQuery.ofModel_size haccepted hquery
  obtain ⟨hholds, -, -, hwranker, -⟩ := RankingQuery.weight_eq_ok hweight
  have hsound : made.Sound := hcache.over (RankingQuery.weight_madeOver hweight)
  have hfull : searcher.isEmpty = false := by
    have hmem := Array.mem_toList_iff.mp (Shard.mem_readersFrom hreader)
    refine beq_eq_false_iff_ne.mpr fun hnone => ?_
    obtain ⟨docs, hdocs⟩ := hshard.holds
    exact (hshard.maxDoc_pos _ hmem).ne' (hdocs.maxDoc_eq_zero hnone reader hreader)
  have hweights : w.weights.length ≤ w.ranker.featureCount := by
    rw [hwranker, hranker, hcount, ← hlength, hholds.length_eq]
  obtain ⟨s', scored, v, hscore, hfeatures, hdescribes, hvalue, -⟩ :=
    hreached.tracks.score_ok (hshard.readers reader hreader) hweights hstop hpos hlive
  rw [hwranker, hranker] at hvalue
  refine ⟨s', scored, v, hscore, hfeatures, hvalue, ?_, ?_⟩
  · rw [hdescribes.default, hwranker, hranker]
  intro i f inputs constant logged hi htemplate
  obtain ⟨sum, hfeature, ⟨hconstant, -⟩, hinputs⟩ :=
    StoredFeatureSet.compile_derived hcompiled hi htemplate
  obtain ⟨weight, hwi, hheld⟩ :=
    forall₂_getElem? hholds (RankingQuery.query_derived hquery hfeature)
  rw [hfull] at hheld
  obtain rfl := hheld.derived hsound
  refine ⟨fun input hinput => ?_, ?_⟩
  · obtain ⟨x, -, hordinal, hlt, -⟩ := forall₂_mem hinputs hinput
    exact hordinal ▸ hlt
  · have hvalue := hdescribes.value i _ hwi
    rw [Weight.scoreAt_derived hpos (hreached.tracks.inside doc hstop), DerivedSum.value_below hinputs, hconstant] at hvalue
    exact (Except.ok.inj hvalue).symm

/-- A sum over a sum and over a feature that does not match, with zeros of either sign. -/
theorem ModelFile.derives_sum_of_sum :
    let file : ModelFile := {
      name := "sums"
      features := ⟨"four", [⟨"rare", [], .phrase "rare"⟩, ⟨"two", [], .constant 2.0⟩,
        ⟨"six", [], .derived [⟨"two", 3.0⟩, ⟨"rare", -0.0⟩] (-0.0) false⟩,
        ⟨"more", [], .derived [⟨"six", 0.5⟩, ⟨"rare", 1.0⟩] 0.0 true⟩]⟩
      definition := .linear [0.0, 0.0, 0.0, 1.0] 0.25 }
    let shard := (Shard.empty.add "a" [1] 1).1
    ∃ model q made w reader s' scored v, file.compile = .ok model ∧
      RankingQuery.ofModel model .empty [] = .ok q ∧
      q.weight ⟨shard, none⟩ .empty = (made, .ok w) ∧ shard.readers = [reader] ∧
      (DocWalk.next (w.scorer reader none)).score = .ok (s', scored) ∧
      scored.features = some v ∧ file.features.Derives v ∧ v.toList = [0.25, 2.0, 6.0, 3.25] := by
  intro file shard
  let features : FeatureSet := ⟨"four", [.stored ⟨"rare", [], .phrase "rare"⟩,
    .stored ⟨"two", [], .constant 2.0⟩, .derived "six" ⟨[(1, 3.0), (0, -0.0)], -0.0, none⟩,
    .derived "more" ⟨[(2, 0.5), (0, 1.0)], 0.0, some "more"⟩]⟩
  let ranker : Ranker := .linear "sums" [0.0, 0.0, 0.0, 1.0] 0.25
  let q : RankingQuery := ⟨[.phrase [], .constant 2.0, .derived ⟨[(1, 3.0), (0, -0.0)], -0.0, none⟩,
    .derived ⟨[(2, 0.5), (0, 1.0)], 0.0, some "more"⟩], features, ranker, 0⟩
  let w : RankingWeight := ⟨[.nothing, .constant 2.0 true,
    .derived ⟨[(1, 3.0), (0, 0.0)], 0.0, none⟩,
    .derived ⟨[(2, 0.5), (0, 1.0)], 0.0, some "more"⟩], ranker, features⟩
  let reader : SegmentReader := ⟨(Segment.empty.add [1]).1, 0, 0⟩
  have hmodel : file.compile = .ok ⟨"sums", features, ranker, 0⟩ := rfl
  have hrare : (StoredFeature.mk "rare" [] (.phrase "rare")).query .empty [] = .ok (.phrase []) := by
    simp [StoredFeature.query, StoredFeature.missing, StoredFeature.render, Piece.ofText,
      Piece.splitAtPair, Piece.fill, QueryContext.phrase, QueryContext.empty]
  have hquery : RankingQuery.ofModel ⟨"sums", features, ranker, 0⟩ .empty [] = .ok q :=
    bind_eq_ok.mpr ⟨q.queries, mapM_eq_ok.mpr
      (.cons hrare (.cons rfl (.cons rfl (.cons rfl .nil)))), rfl⟩
  have hweight : ∃ made, q.weight ⟨shard, none⟩ .empty = (made, .ok w) := ⟨_, rfl⟩
  obtain ⟨made, hweight⟩ := hweight
  have hreached : RankingScorer.Reached w reader none (DocWalk.next (w.scorer reader none)) :=
    RankingScorer.Reached.fresh.next
  have hstop : DocWalk.stop (DocWalk.next (w.scorer reader none)) = .doc 1 := rfl
  obtain ⟨s', scored, v, hscore, hfeatures, -, -, hderives⟩ :=
    ModelFile.derives hmodel hquery (Shard.Built.empty.add "a" [1] 1) .empty hweight
      (show reader ∈ shard.readers from List.mem_singleton_self _) hreached hstop Nat.one_pos rfl
  refine ⟨_, q, made, w, reader, s', scored, v, hmodel, hquery, hweight, rfl, hscore, hfeatures,
    hderives, ?_⟩
  have hvalues : ((DocWalk.next (w.scorer reader none)).score.toOption.bind
      (·.2.features)).map (·.toList) = some [0.25, 2.0, 6.0, 3.25] := by decide
  rw [hscore] at hvalues
  have hvalues : scored.features.map (·.toList) = some [0.25, 2.0, 6.0, 3.25] := hvalues
  rw [hfeatures] at hvalues
  exact Option.some.inj hvalues

end FeatureRank
