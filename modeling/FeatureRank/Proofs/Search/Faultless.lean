import FeatureRank.Proofs.Search.Fetching
import FeatureRank.Proofs.Search.Places

/-! # No fault

    A computation is faultless when it never ends with a fault, whatever was counted
    before (`Tracked.Faultless`); it may be refused.  Taking a request apart and
    getting weights only refuse, scoring and visiting always succeed where the
    features have room, and a search ends as its scoring does.  So no search and no
    log of features asks for what is not there (`Engine.never_faults`). -/

namespace FeatureRank

namespace Tracked

variable {α β ι : Type}

/-- A computation that never ends with a fault. -/
def Faultless (m : Tracked α) : Prop :=
  ∀ before fault, ((ExceptT.run m).run before).1 ≠ .error (.fault fault)

namespace Faultless

theorem of_ends {m : Tracked α} {a : α} (h : m.Ends (.ok a)) : m.Faultless := by
  intro before fault heq
  cases (h before).symm.trans heq

theorem pure (a : α) : (pure a : Tracked α).Faultless := of_ends (.pure a)

theorem refuse (refusal : Refusal) : (throw (.refused refusal) : Tracked α).Faultless := by
  intro before fault heq
  cases heq

theorem ofExcept (x : Except Refusal α) : (ofExcept x).Faultless := by
  cases x with
  | error refusal => exact refuse refusal
  | ok a => exact pure a

theorem ofChecked {x : Checked α} (h : ∃ a, x = .ok a) : (ofChecked x).Faultless := by
  obtain ⟨a, rfl⟩ := h
  exact pure a

/-- A sequence is faultless when it goes on faultlessly from all that its first step
    yields. -/
theorem bind {m : Tracked α} {f : α → Tracked β} (h : m.Faultless)
    (hnext : ∀ a, m.Yields a → (f a).Faultless) : (m >>= f).Faultless := by
  intro before fault
  cases hm : (ExceptT.run m).run before with
  | mk outcome between =>
      cases outcome with
      | error failure =>
          rw [run_bind_of_error hm]
          intro heq
          refine h before fault ?_
          rw [hm]
          exact congrArg Except.error (Except.error.inj heq)
      | ok a =>
          rw [run_bind_of_run hm]
          exact hnext a ⟨before, between, hm⟩ between fault

theorem mapM {f : ι → Tracked α} {items : List ι} (h : ∀ i ∈ items, (f i).Faultless) :
    (items.mapM f).Faultless := by
  induction items with
  | nil => exact pure []
  | cons first rest ih =>
      obtain ⟨hfirst, hrest⟩ := List.forall_mem_cons.mp h
      rw [List.mapM_cons]
      exact hfirst.bind fun _ _ => (ih hrest).bind fun _ _ => pure _

theorem mapM_option {f : ι → Tracked α} (h : ∀ i, (f i).Faultless) (item : Option ι) :
    (item.mapM f).Faultless := by
  cases item with
  | none => exact pure none
  | some i =>
      show (some <$> f i).Faultless
      rw [← bind_pure_comp]
      exact (h i).bind fun _ _ => pure _

end Faultless

end Tracked

open Tracked

/-! ## Requests -/

/-- Making a slot can only be refused. -/
theorem QueryRequest.slot_faultless (dictionary : Dictionary) (settings : Settings)
    (query : QueryRequest) : (query.slot dictionary settings).Faultless := by
  induction query with
  | byModel model params caching =>
      unfold QueryRequest.slot
      refine (Faultless.of_ends (Ends.count _)).bind fun _ _ => ?_
      cases RankingQuery.ofModel model ⟨some dictionary⟩ params with
      | ok q => exact .pure _
      | error refusal => exact (Faultless.of_ends (Ends.count _)).bind fun _ _ => .refuse refusal
  | prebuilt model => exact (Faultless.ofExcept _).bind fun _ _ => .pure _
  | boost inner factor ih => exact ih.bind fun _ _ => .pure _
  | anyTerm text => exact .pure _
  | phrase text => exact .pure _

theorem ShardRequest.ofRequest_faultless (dictionary : Dictionary) (settings : Settings)
    (request : SearchRequest) : (ofRequest dictionary settings request).Faultless := by
  have hslot := QueryRequest.slot_faultless dictionary settings
  have hstage : ∀ s, (stage dictionary settings s).Faultless := by
    intro s
    cases s with
    | scale factor window => exact .pure _
    | query query queryWeight rescoreWeight window => exact (hslot query).bind fun _ _ => .pure _
  unfold ofRequest
  refine (Faultless.mapM_option hslot _).bind fun _ _ => ?_
  refine (Faultless.mapM fun x _ => (hslot x.2).bind fun _ _ => .pure _).bind fun _ _ => ?_
  refine (Faultless.mapM fun s _ => hstage s).bind fun _ _ => ?_
  exact (Faultless.ofExcept _).bind fun _ _ => .pure _

/-! ## Scoring -/

/-- Getting a weight can only be refused. -/
theorem Slot.weighted_faultless (slot : Slot) (searcher : Searcher) (settings : Settings)
    (mode : ScoreMode) : (slot.weighted searcher settings mode).Faultless :=
  (Faultless.of_ends (a := ()) fun _ => rfl).bind fun _ _ =>
    (Faultless.ofExcept _).bind fun _ _ => .pure _

section

variable {docs : List IndexedDocument} {s : Shard}

theorem Slot.scoreAll_faultless (hs : s.Holds docs) (global : Option GlobalStatistics)
    (settings : Settings) (filter : Option Slot) {slots : List Slot}
    (hslots : ∀ slot ∈ slots, slot.Fits) :
    (scoreAll ⟨s, global⟩ settings filter slots).Faultless := by
  unfold scoreAll
  refine (Faultless.mapM_option (fun slot : Slot =>
    slot.weighted_faultless ⟨s, global⟩ settings .matching) filter).bind fun filter' _ => ?_
  refine (Faultless.mapM fun slot _ =>
    slot.weighted_faultless ⟨s, global⟩ settings .scores).bind fun weighted hweighted => ?_
  refine (Faultless.ofChecked ⟨_, hs.scoreSegments settings (filter'.map (·.weight))
    (Slot.weighted_fits hslots hweighted)⟩).bind fun _ _ => .pure _

namespace Rescore

theorem apply_faultless (hs : s.Holds docs) (global : Option GlobalStatistics)
    (settings : Settings) (hits : List ShardHit) {stage : Rescore Slot} (hstage : stage.Fits) :
    (apply ⟨s, global⟩ settings hits stage).Faultless := by
  cases stage with
  | scale factor window => exact .pure _
  | query slot queryWeight rescoreWeight window =>
      refine (slot.weighted_faultless ⟨s, global⟩ settings .scores).bind fun w hw => ?_
      obtain ⟨visits, after, hvisits, -⟩ := hs.visit_ok ((hstage slot rfl).weighted hw)
        (((ShardHit.sort hits).take window).map (·.doc))
      exact (Faultless.ofChecked ⟨_, hvisits⟩).bind fun _ _ => .pure _

theorem applyAll_faultless (hs : s.Holds docs) (global : Option GlobalStatistics)
    {stages : List (Rescore Slot)} :
    ∀ (settings : Settings) (hits : List ShardHit), (∀ stage ∈ stages, stage.Fits) →
      (applyAll ⟨s, global⟩ settings stages hits).Faultless := by
  induction stages with
  | nil => exact fun _ _ _ => .pure _
  | cons first rest ih =>
      intro settings hits hstages
      obtain ⟨hfirst, hrest⟩ := List.forall_mem_cons.mp hstages
      unfold applyAll
      exact (apply_faultless hs global _ hits hfirst).bind fun result _ =>
        (ih _ result.2 hrest).bind fun _ _ => .pure _

end Rescore

theorem ShardRequest.score_faultless (hs : s.Holds docs) (global : Option GlobalStatistics)
    (settings : Settings) {r : ShardRequest} (hr : r.Fits) :
    (r.score ⟨s, global⟩ settings).Faultless := by
  unfold score
  exact (Slot.scoreAll_faultless hs global settings r.filter hr.queries).bind fun result _ =>
    (Rescore.applyAll_faultless hs global settings result.2 hr.rescores).bind fun _ _ => .pure _

end

/-! ## Names of explained features -/

/-- The feature of an ordinal of a set. -/
def FeatureSet.feature (s : FeatureSet) (ordinal : Nat) : Checked Feature :=
  match s.features[ordinal]? with
  | some feature => .ok feature
  | none => .error .noFeature

/-- A weight whose features are explained each under its name. -/
def QueryWeight.Named : QueryWeight → Prop
  | .plain _ => True
  | .ranking w => ∀ ordinal weight, w.weights[ordinal]? = some weight →
      ∃ feature, w.features.feature ordinal = .ok feature ∧
        (w.features.names.zip w.weights)[ordinal]? = some (feature.name, weight)
  | .boost inner _ => inner.Named

/-- **A query that fits has a feature for each of its weights.** -/
theorem Query.Fits.named {query : Query} {before : Option ScoreCache} (hquery : query.Fits before)
    {searcher : Searcher} {enabled : Bool} {cache made : WeightCache} {w : QueryWeight}
    (h : query.weight searcher enabled .scores cache = (made, .ok w)) : w.Named := by
  induction query generalizing cache made w with
  | ranking q =>
      obtain ⟨-, ⟨hmode, -⟩ | ⟨-, v, hv, rfl⟩⟩ := weight_of_ranking h
      · cases hmode
      · obtain ⟨hholds, -, -, -, hfeatures⟩ := RankingQuery.weight_eq_ok hv
        have hlength : v.weights.length = v.features.features.length := by
          rw [hfeatures, ← hholds.length_eq]
          exact hquery.1.2
        intro ordinal weight hweight
        have hlt := (List.getElem?_eq_some_iff.mp hweight).1
        have hfeature := List.getElem?_eq_getElem (hlength ▸ hlt)
        refine ⟨v.features.features[ordinal], by rw [FeatureSet.feature, hfeature], ?_⟩
        refine List.getElem?_zip_eq_some.mpr ⟨?_, hweight⟩
        rw [FeatureSet.names, List.getElem?_map, hfeature]
        rfl
  | boost inner factor ih =>
      obtain ⟨v, hv, rfl⟩ := weight_of_boost h
      have hinner : v.Named := ih hquery hv
      exact hinner
  | plain q =>
      obtain ⟨v, -, -, rfl⟩ := weight_of_plain h
      trivial

/-! ## Logs of features -/

/-- The ranking query of a set of features has a query and a place for each of them. -/
theorem RankingQuery.ofFeatures_sized {features : FeatureSet} {context : QueryContext}
    {params : Params} {q : RankingQuery} (h : ofFeatures features context params = .ok q) :
    q.features = features ∧ q.Sized := by
  obtain ⟨queries, hqueries, h⟩ := bind_eq_ok.mp h
  rw [← Except.ok.inj h]
  exact ⟨rfl, rfl, (mapM_eq_ok.mp hqueries).length_eq.symm⟩

/-- The vector of a document that a ranking query scored has a place for each feature. -/
theorem RankingQuery.scoredOn_size {q : RankingQuery} (hq : q.Sized) {searcher : Searcher}
    {enabled : Bool} {cache made : WeightCache} {w : QueryWeight}
    (h : (Query.ranking q).weight searcher enabled .scores cache = (made, .ok w))
    (terms : List TermId) (kept : Option (List Float32)) :
    ∃ v, (w.scoredOn terms kept).features = some v ∧ v.size = q.features.names.length := by
  obtain ⟨-, ⟨hmode, -⟩ | ⟨-, v, hv, rfl⟩⟩ := Query.weight_of_ranking h
  · cases hmode
  · obtain ⟨-, -, -, hranker, -⟩ := RankingQuery.weight_eq_ok hv
    refine ⟨_, rfl, (v.size_gatheredOn terms kept).trans ?_⟩
    rw [hranker, hq.1, FeatureSet.names, List.length_map]
    rfl

namespace Engine

/-- **The values of features on one shard** are logged without a fault, whichever keys
    they are asked for by. -/
theorem shardFeatures_faultless (e : Engine) {docs : List IndexedDocument} {s : Shard}
    (hs : s.Holds docs) (features : FeatureSet) (params : Params) (keys : List String)
    (missingAsZero : Bool) (place : Nat) :
    (e.shardFeatures features params keys missingAsZero place s).Faultless := by
  unfold shardFeatures
  extract_lets hits recorder
  split
  · exact .pure []
  refine (Faultless.ofExcept _).bind fun query hquery => ?_
  obtain ⟨hfeatures, hsized⟩ := RankingQuery.ofFeatures_sized (yields_ofExcept hquery)
  have hslot : Slot.Fits { query := .ranking query } := ⟨hsized, .none _⟩
  refine (Slot.weighted_faultless _ _ _ _).bind fun w hw => ?_
  obtain ⟨visits, after, hvisits, hscored⟩ :=
    hs.visit_ok ((hslot.weighted hw).withoutScores) (hits.map (·.doc))
  rw [hvisits]
  refine (Faultless.ofChecked ⟨_, rfl⟩).bind fun found hfound => ?_
  rw [← Except.ok.inj (yields_ofChecked hfound)]
  have hsizes : ∀ x ∈ visits, ∃ v, x.2.2.features = some v ∧ v.size = recorder.featureCount := by
    intro x hx
    obtain ⟨terms, kept, hscore⟩ := hscored x hx
    obtain ⟨v, hv, hsize⟩ :=
      RankingQuery.scoredOn_size hsized (Slot.weighted_yields hw).1 terms kept
    rw [hfeatures] at hsize
    exact ⟨v, hscore ▸ hv, hsize⟩
  obtain ⟨finished, hfinished, -⟩ := recorder.recordVisits_eq visits hsizes
  exact (Faultless.ofChecked ⟨finished, hfinished⟩).bind fun _ _ => .pure _

variable {e : Engine} {request : SearchRequest}

/-- Scoring shards that documents built is faultless. -/
theorem scoreParts_faultless (settings : Settings) (global : Option GlobalStatistics)
    {parts : Parts} (hparts : ∀ part ∈ parts, part.2.1.Built ∧ part.2.2.Fits) :
    (scoreParts settings global parts).Faultless := by
  induction parts with
  | nil => exact .pure _
  | cons part rest ih =>
      obtain ⟨⟨hshard, hr⟩, hrest⟩ := List.forall_mem_cons.mp hparts
      obtain ⟨docs, hholds⟩ := hshard.holds
      unfold scoreParts
      exact (ShardRequest.score_faultless hholds global _ hr).bind fun _ _ =>
        (ih hrest).bind fun _ _ => .pure _

/-- The parts of a request by accepted models are for built shards, and fit. -/
theorem parts_fit (hbuilt : e.Built) (haccepted : request.Accepted) {parts : Parts}
    (h : (e.parts request).Yields parts) : ∀ part ∈ parts, part.2.1.Built ∧ part.2.2.Fits := by
  intro part hpart
  obtain ⟨k, hk⟩ := List.mem_iff_getElem?.mp hpart
  obtain ⟨-, hshard, hr⟩ := parts_yields h hk
  exact ⟨hbuilt _ hshard, ShardRequest.ofRequest_fits haccepted hr⟩

theorem scored_faultless (hbuilt : e.Built) (haccepted : request.Accepted) :
    (e.scored request).Faultless := by
  unfold scored
  refine Faultless.bind ?_ fun parts hparts =>
    (scoreParts_faultless e.settings _ (parts_fit hbuilt haccepted hparts)).bind fun _ _ => .pure _
  exact Faultless.mapM fun x _ =>
    (ShardRequest.ofRequest_faultless e.dictionary e.settings request).bind fun _ _ => .pure _

theorem search_faultless (hbuilt : e.Built) (haccepted : request.Accepted) (fault : Fault) :
    (e.search request).2 ≠ .error (.fault fault) := by
  intro heq
  have hends := search_ends hbuilt haccepted
  rw [heq] at hends
  cases hscored : (e.track (e.scored request)).2 with
  | ok found =>
      rw [hscored] at hends
      cases hends
  | error failure =>
      rw [hscored] at hends
      cases hends
      exact scored_faultless hbuilt haccepted e.counters fault hscored

theorem logFeatures_faultless (hbuilt : e.Built) (features : FeatureSet) (params : Params)
    (keys : List String) (missingAsZero : Bool) (fault : Fault) :
    (e.logFeatures features params keys missingAsZero).2 ≠ .error (.fault fault) := by
  have hshards : Tracked.Faultless (e.shards.toList.zipIdx.mapM fun x =>
      e.shardFeatures features params keys missingAsZero x.2 x.1) := by
    refine Faultless.mapM fun x hx => ?_
    obtain ⟨docs, hholds⟩ :=
      (hbuilt x.1 (Array.mem_toList_iff.mp (List.fst_mem_of_mem_zipIdx hx))).holds
    exact e.shardFeatures_faultless hholds features params keys missingAsZero x.2
  exact (hshards.bind fun hits _ => .pure hits.flatten) e.counters fault

/-- An engine with a shard takes any document, and keeps its shards. -/
theorem add_ok (h : 0 < e.shardCount) (d : SourceDocument) :
    ∃ e' doc, e.add d = .ok (e', doc) ∧ e'.shardCount = e.shardCount := by
  have hplace : (d.shard.getD e.docCount) % e.shardCount < e.shards.size := Nat.mod_lt _ h
  have hshard := Array.getElem?_eq_getElem hplace
  cases hadd : e.add d with
  | error fault =>
      simp only [Engine.add, hshard] at hadd
      cases hadd
  | ok added =>
      obtain ⟨e', doc⟩ := added
      refine ⟨e', doc, rfl, ?_⟩
      simp only [Engine.add, hshard] at hadd
      rw [← (Prod.mk.inj (Except.ok.inj hadd)).1]
      exact Array.size_setIfInBounds

theorem addAll_ok (documents : List SourceDocument) :
    ∀ {e : Engine}, 0 < e.shardCount → ∃ e', e.addAll documents = .ok e' := by
  induction documents with
  | nil => exact fun _ => ⟨_, rfl⟩
  | cons d rest ih =>
      intro e h
      obtain ⟨next, doc, hadd, hcount⟩ := add_ok h d
      obtain ⟨last, hlast⟩ := ih (e := next) (hcount ▸ h)
      exact ⟨last, bind_eq_ok.mpr ⟨next, bind_eq_ok.mpr ⟨_, hadd, rfl⟩, hlast⟩⟩

/-- **There is a shard for every document** of an engine that is made empty. -/
theorem ofShards_addAll_ok (count : Nat) (settings : Settings) (documents : List SourceDocument) :
    ∃ e, (ofShards count settings).addAll documents = .ok e := by
  refine addAll_ok documents ?_
  rw [shardCount, ofShards, Array.size_replicate]
  omega

/-- **Nothing is asked for that is not there.**  On an engine that documents built, a
    search by accepted models and a log of features, whatever it logs and for
    whichever keys, end in a result or a refusal and never in a fault: no value goes
    beyond its feature vector or its log, no length is read of a document that the
    segment does not hold, and no value or extra goes to a log before its hit is open.

    What the walks read is there too.  A scorer finds frequencies and positions in every
    state that it gets into; each weight that an explanation accounts for has the name
    of its feature; and a visit or a log goes by a place among the documents that were
    asked for, so a window and the hits are as long as they need to be. -/
theorem never_faults (hbuilt : e.Built) (haccepted : request.Accepted) :
    (∀ fault, (e.search request).2 ≠ .error (.fault fault)) ∧
    (∀ features params keys missingAsZero fault,
      (e.logFeatures features params keys missingAsZero).2 ≠ .error (.fault fault)) ∧
    (∀ (w : QueryWeight) reader before s, w.Reached reader before s → s.Reads) ∧
    (∀ parts, (e.parts request).Yields parts → ∀ part ∈ parts, ∀ slot ∈ part.2.2.queries,
      ∀ searcher enabled cache made w,
        slot.query.weight searcher enabled .scores cache = (made, .ok w) → w.Named) ∧
    (∀ (w : QueryWeight) shard numbers cache visits after,
      w.visit shard numbers cache = .ok (visits, after) →
      (∀ v ∈ visits, v.1 < numbers.length) ∧
      ∀ r r' : LogRecorder, r.hits = [] → r.recordVisits visits = .ok r' →
        ∀ hit ∈ r'.hits, hit < numbers.length) ∧
    ∀ (r : ShardRequest) searcher settings numbers recorders,
      (r.recorders searcher settings numbers).Yields recorders →
      ∀ x ∈ recorders, ∀ hit ∈ x.2.hits, hit < numbers.length := by
  refine ⟨search_faultless hbuilt haccepted, logFeatures_faultless hbuilt, ?_, ?_, ?_, ?_⟩
  · intro w reader before s hreached
    exact hreached.reads
  · intro parts hparts part hpart slot hslot searcher enabled cache made w hw
    have hfits : slot.Fits := (parts_fit hbuilt haccepted hparts part hpart).2.queries slot hslot
    exact hfits.named hw
  · intro w shard numbers cache visits after hvisit
    exact ⟨QueryWeight.visit_lt hvisit, fun r r' hnone hrecord =>
      LogRecorder.recordVisits_lt hvisit hnone hrecord⟩
  · intro r searcher settings numbers recorders hrecorders
    exact ShardRequest.recorders_lt hrecorders

/-- Two documents on two shards, searched and logged by a model with a phrase and a sum
    of it. -/
theorem never_faults_two :
    let features : FeatureSet :=
      ⟨"s", [.prebuilt "pair" (.phrase [1, 2]), .derived "twice" ⟨[(0, 2.0)], 0.0, some "sum"⟩]⟩
    let model : Model := ⟨"m", features, .linear "m" [1.0, 1.0] 0.0, 0⟩
    let request : SearchRequest := {
      queries := [(some "q", .byModel model [] (some true))]
      rescores := [.query (.byModel model [] none) 1.0 1.0 5]
      logs := [{ namedQuery := some "q" }]
      explain := true }
    ∃ e, (ofShards 2).addAll [⟨"1", "sir knight", none⟩, ⟨"2", "knight sir", none⟩] = .ok e ∧
      (∀ fault, (e.search request).2 ≠ .error (.fault fault)) ∧
      ∀ fault, (e.logFeatures features [] ["2", "1"] true).2 ≠ .error (.fault fault) := by
  intro features model request
  obtain ⟨e, he⟩ := ofShards_addAll_ok 2 {} [⟨"1", "sir knight", none⟩, ⟨"2", "knight sir", none⟩]
  have hbuilt : e.Built := (Built.ofShards 2 {}).addAll he
  have haccepted : request.Accepted := by
    refine ⟨fun x hmem => ?_, fun stage hmem query hquery => ?_⟩
    · rw [List.mem_singleton.mp hmem]
      rfl
    · rw [List.mem_singleton.mp hmem] at hquery
      rw [← Option.some.inj hquery]
      rfl
  obtain ⟨hsearch, hlog, -⟩ := never_faults hbuilt haccepted
  exact ⟨e, he, hsearch, hlog features [] ["2", "1"] true⟩

end Engine

end FeatureRank
