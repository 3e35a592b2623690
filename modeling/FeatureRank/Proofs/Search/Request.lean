import FeatureRank.Proofs.Search.Scoring

/-! # Requests taken apart

    A request is taken apart anew for each shard, so its slots start without
    weights and scores, and every ranking query is of a model of the request
    (`ShardRequest.ofRequest_fresh`).  The loggers are just what the log specs
    resolve to (`ShardRequest.ofRequest_loggers`). -/

namespace FeatureRank

open Tracked

/-- A query by accepted models. -/
def QueryRequest.Accepted : QueryRequest → Prop
  | .byModel model _ _ => model.Accepted
  | .prebuilt model => model.Accepted
  | .boost query _ => query.Accepted
  | .anyTerm _ => True
  | .phrase _ => True

/-- A request that scores by accepted models. -/
structure SearchRequest.Accepted (request : SearchRequest) : Prop where
  queries : ∀ x ∈ request.queries, x.2.Accepted
  rescores : ∀ stage ∈ request.rescores, ∀ query, stage.query? = some query → query.Accepted

/-- **The slot of a query is fresh.** -/
theorem QueryRequest.slot_fresh {dictionary : Dictionary} {settings : Settings}
    {query : QueryRequest} {slot : Slot} (hquery : query.Accepted)
    (h : (query.slot dictionary settings).Yields slot) : slot.Fresh := by
  induction query generalizing slot with
  | byModel model params caching =>
      unfold QueryRequest.slot at h
      obtain ⟨_, -, h⟩ := yields_bind h
      cases hmade : RankingQuery.ofModel model ⟨some dictionary⟩ params with
      | error refusal =>
          rw [hmade] at h
          obtain ⟨_, -, h⟩ := yields_bind h
          exact absurd h not_yields_throw
      | ok q =>
          rw [hmade] at h
          rw [← yields_pure h]
          refine ⟨rfl, ?_, ?_⟩
          · show (if _ then some ScoreCache.empty else none) = none ∨
              (if _ then some ScoreCache.empty else none) = some ScoreCache.empty
            split
            · exact Or.inr rfl
            · exact Or.inl rfl
          · intro q' hq'
            rw [← Option.some.inj hq']
            exact ⟨model, _, _, hquery, hmade⟩
  | prebuilt model =>
      obtain ⟨q, hmade, h⟩ := yields_bind h
      rw [← yields_pure h]
      refine ⟨rfl, Or.inl rfl, ?_⟩
      intro q' hq'
      rw [← Option.some.inj hq']
      exact ⟨model, _, _, hquery, yields_ofExcept hmade⟩
  | boost inner factor ih =>
      obtain ⟨slot', hslot', h⟩ := yields_bind h
      have hfresh := ih hquery hslot'
      rw [← yields_pure h]
      refine ⟨hfresh.weights, hfresh.scores, ?_⟩
      intro q hq
      refine hfresh.accepted q ?_
      cases hinner : slot'.query with
      | ranking q' =>
          rw [hinner] at hq
          exact hq
      | boost query factor' =>
          rw [hinner] at hq
          exact nomatch hq
      | plain query =>
          rw [hinner] at hq
          exact nomatch hq
  | anyTerm text =>
      rw [← yields_pure h]
      exact ⟨rfl, Or.inl rfl, fun _ hq => nomatch hq⟩
  | phrase text =>
      rw [← yields_pure h]
      exact ⟨rfl, Or.inl rfl, fun _ hq => nomatch hq⟩

namespace ShardRequest

variable {dictionary : Dictionary} {settings : Settings} {request : SearchRequest}
  {r : ShardRequest}

/-- What a request taken apart consists of. -/
theorem ofRequest_parts (h : (ofRequest dictionary settings request).Yields r) :
    List.Forall₂ (fun x slot => ∃ slot', (x.2.slot dictionary settings).Yields slot' ∧
      slot = { slot' with name := x.1 }) request.queries r.queries ∧
    List.Forall₂ (fun s s' => (stage dictionary settings s).Yields s') request.rescores r.rescores ∧
    ∃ loggers, request.logs.mapM (resolve r.queries r.rescores) = .ok loggers ∧
      r.loggers = loggers.filterMap id := by
  unfold ofRequest at h
  obtain ⟨filter, -, h⟩ := yields_bind h
  obtain ⟨queries, hqueries, h⟩ := yields_bind h
  obtain ⟨rescores, hrescores, h⟩ := yields_bind h
  obtain ⟨loggers, hloggers, h⟩ := yields_bind h
  rw [← yields_pure h]
  refine ⟨?_, yields_mapM hrescores, loggers, yields_ofExcept hloggers, rfl⟩
  refine (yields_mapM hqueries).imp ?_
  intro x slot hslot
  obtain ⟨slot', hslot', heq⟩ := yields_bind hslot
  exact ⟨slot', hslot', (yields_pure heq).symm⟩

/-- The slot of the filter of a request taken apart. -/
theorem ofRequest_filter (h : (ofRequest dictionary settings request).Yields r) :
    Option.Rel (fun query slot => (query.slot dictionary settings).Yields slot)
      request.filter r.filter := by
  obtain ⟨filter, hfilter, h⟩ := yields_bind h
  obtain ⟨_, -, h⟩ := yields_bind h
  obtain ⟨_, -, h⟩ := yields_bind h
  obtain ⟨_, -, h⟩ := yields_bind h
  rw [← yields_pure h]
  rcases yields_mapM_option hfilter with ⟨hnone, rfl⟩ | ⟨query, slot, hquery, rfl, hslot⟩
  · rw [hnone]
    exact .none
  · rw [hquery]
    exact .some hslot

/-- **All slots start fresh.** -/
theorem ofRequest_fresh (hrequest : request.Accepted)
    (h : (ofRequest dictionary settings request).Yields r) : r.Fresh := by
  obtain ⟨hqueries, hrescores, -⟩ := ofRequest_parts h
  intro target slot hslot
  cases target with
  | query place =>
      obtain ⟨x, hx, slot', hslot', heq⟩ := forall₂_getElem? hqueries.flip hslot
      have hfresh := QueryRequest.slot_fresh
        (hrequest.queries x (List.mem_iff_getElem?.mpr ⟨place, hx⟩)) hslot'
      rw [heq]
      exact ⟨hfresh.weights, hfresh.scores, hfresh.accepted⟩
  | stage place =>
      obtain ⟨s', hs', hquery⟩ := Option.bind_eq_some_iff.mp hslot
      obtain ⟨s, hs, hstage⟩ := forall₂_getElem? hrescores.flip hs'
      cases s with
      | scale factor window =>
          rw [← yields_pure hstage] at hquery
          exact nomatch hquery
      | query query queryWeight rescoreWeight window =>
          obtain ⟨slot', hslot', heq⟩ := yields_bind hstage
          rw [← yields_pure heq] at hquery
          rw [← Option.some.inj hquery]
          exact QueryRequest.slot_fresh
            (hrequest.rescores _ (List.mem_iff_getElem?.mpr ⟨place, hs⟩) query rfl) hslot'

/-- **The loggers are what the specs resolve to.** -/
theorem ofRequest_loggers (h : (ofRequest dictionary settings request).Yields r) (logger : Logger) :
    logger ∈ r.loggers ↔
      ∃ spec ∈ request.logs, resolve r.queries r.rescores spec = .ok (some logger) := by
  obtain ⟨-, -, loggers, hresolved, hloggers⟩ := ofRequest_parts h
  have hspecs := mapM_eq_ok.mp hresolved
  rw [hloggers, List.mem_filterMap]
  constructor
  · rintro ⟨found, hmem, hfound⟩
    have hfound : found = some logger := hfound
    obtain ⟨spec, hspec, hresolve⟩ := forall₂_mem hspecs.flip hmem
    rw [hfound] at hresolve
    exact ⟨spec, hspec, hresolve⟩
  · rintro ⟨spec, hmem, hresolve⟩
    obtain ⟨found, hfound, hresolve'⟩ := forall₂_mem hspecs hmem
    rw [hresolve] at hresolve'
    rw [← Except.ok.inj hresolve'] at hfound
    exact ⟨some logger, hfound, rfl⟩

/-- A logger has the name of its spec and reports missing values the way it says. -/
theorem resolve_eq_ok {queries : List Slot} {rescores : List (Rescore Slot)} {spec : LogSpec}
    {logger : Logger} (h : resolve queries rescores spec = .ok (some logger)) :
    logger.name = spec.loggerName ∧ logger.missingAsZero = spec.missingAsZero := by
  unfold resolve at h
  split at h
  · obtain ⟨target, -, h⟩ := bind_eq_ok.mp h
    rw [← Option.some.inj (Except.ok.inj h)]
    exact ⟨rfl, rfl⟩
  · obtain ⟨target, -, h⟩ := bind_eq_ok.mp h
    rw [← Option.some.inj (Except.ok.inj h)]
    exact ⟨rfl, rfl⟩
  · exact nomatch Except.ok.inj h

/-- Where a name is that no other spec has, there is one logger of the name. -/
theorem ofRequest_unique (h : (ofRequest dictionary settings request).Yields r) {spec : LogSpec}
    {logger : Logger} (hresolve : resolve r.queries r.rescores spec = .ok (some logger))
    (hunique : ∀ other ∈ request.logs, other.loggerName = spec.loggerName → other = spec) :
    ∀ other ∈ r.loggers, other.name = logger.name → other = logger := by
  intro other hmem hname
  obtain ⟨spec', hspec', hresolve'⟩ := (ofRequest_loggers h other).mp hmem
  have hsame : spec' = spec := by
    refine hunique spec' hspec' ?_
    rw [← (resolve_eq_ok hresolve').1, hname, (resolve_eq_ok hresolve).1]
  rw [hsame, hresolve] at hresolve'
  exact (Option.some.inj (Except.ok.inj hresolve')).symm

/-- The target of a log of a named query. -/
theorem resolve_named {queries : List Slot} {rescores : List (Rescore Slot)} {spec : LogSpec}
    {name : String} (hname : spec.namedQuery = some name) {place : Nat}
    (hplace : placeOf? name queries = some place) {slot : Slot} (hslot : queries[place]? = some slot)
    {found : Option Logger} (h : resolve queries rescores spec = .ok found) :
    found = some ⟨spec.loggerName, spec.missingAsZero, .query place⟩ ∧
      ∃ q, slot.query.ranking? = some q := by
  unfold resolve at h
  rw [hname] at h
  obtain ⟨target, htarget, h⟩ := bind_eq_ok.mp h
  unfold resolveQuery at htarget
  simp only [hplace, hslot] at htarget
  by_cases hranking : slot.query.ranking?.isSome = true
  · rw [if_pos hranking] at htarget
    rw [← Except.ok.inj htarget] at h
    exact ⟨(Except.ok.inj h).symm, Option.isSome_iff_exists.mp hranking⟩
  · rw [if_neg hranking] at htarget
    exact nomatch htarget

/-- The log of a named query is one of the loggers, for the query of that name. -/
theorem ofRequest_named (h : (ofRequest dictionary settings request).Yields r) {spec : LogSpec}
    (hspec : spec ∈ request.logs)
    (hunique : ∀ other ∈ request.logs, other.loggerName = spec.loggerName → other = spec)
    {name : String} (hnamed : spec.namedQuery = some name) {place : Nat}
    (hplace : placeOf? name r.queries = some place) {slot : Slot}
    (hslot : r.queries[place]? = some slot) :
    ∃ q, slot.query.ranking? = some q ∧
      ⟨spec.loggerName, spec.missingAsZero, .query place⟩ ∈ r.loggers ∧
      ∀ other ∈ r.loggers, other.name = spec.loggerName →
        other = ⟨spec.loggerName, spec.missingAsZero, .query place⟩ := by
  obtain ⟨-, -, resolved, hresolved, -⟩ := ofRequest_parts h
  obtain ⟨k, hk⟩ := List.mem_iff_getElem?.mp hspec
  obtain ⟨found, -, hfound⟩ := forall₂_getElem? (mapM_eq_ok.mp hresolved) hk
  obtain ⟨hlogger, q, hq⟩ := resolve_named hnamed hplace hslot hfound
  rw [hlogger] at hfound
  exact ⟨q, hq, (ofRequest_loggers h _).mpr ⟨spec, hspec, hfound⟩,
    ofRequest_unique h hfound hunique⟩

end ShardRequest

end FeatureRank
