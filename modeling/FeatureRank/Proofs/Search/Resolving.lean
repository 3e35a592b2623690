import FeatureRank.Proofs.Search.Compiled

/-! # Taking requests apart — when it succeeds

    Whether a request can be taken apart is decided by the request alone: every query
    by a compiled model has to be supplied with what its features need
    (`QueryRequest.Supplied`), and every log spec has to resolve to a query that ranks
    (`LogSpec.Resolves`).  Taking it apart counts each query by a model
    (`ShardRequest.ofRequest_succeeds`). -/

namespace FeatureRank

open Tracked

/-! ## Queries -/

namespace QueryRequest

/-- A query whose ranking queries are by compiled models. -/
def Compiled : QueryRequest → Prop
  | .byModel model _ _ => model.Compiled
  | .prebuilt _ => False
  | .boost query _ => query.Compiled
  | .anyTerm _ | .phrase _ => True

/-- Whether every feature that is no sum has all that it needs. -/
def Supplied : QueryRequest → Prop
  | .byModel model params _ =>
    ∀ f, Feature.stored f ∈ model.features.features → f.Supplied params
  | .boost query _ => query.Supplied
  | .prebuilt _ | .anyTerm _ | .phrase _ => True

/-- How many queries by a model there are, under any boosts. -/
def rankings : QueryRequest → Nat
  | .byModel .. => 1
  | .boost query _ => query.rankings
  | .prebuilt _ | .anyTerm _ | .phrase _ => 0

/-- A ranking query, or one under a single boost. -/
def IsRanking : QueryRequest → Prop
  | .byModel .. | .prebuilt _ | .boost (.byModel ..) _ | .boost (.prebuilt _) _ => True
  | _ => False

theorem Compiled.accepted {query : QueryRequest} (h : query.Compiled) : query.Accepted := by
  induction query with
  | byModel model params caching => exact Model.Compiled.accepted h
  | prebuilt model => exact h.elim
  | boost inner factor ih => exact ih h
  | anyTerm text => exact trivial
  | phrase text => exact trivial

/-- **A query gets its slot when it is supplied**, and each query by a model is counted. -/
theorem slot_succeeds {query : QueryRequest} (hquery : query.Compiled) (dictionary : Dictionary)
    (settings : Settings) :
    (query.slot dictionary settings).SucceedsIff query.Supplied query.rankings := by
  induction query with
  | byModel model params caching =>
      unfold slot
      intro before
      have hcount : ∀ next : Tracked Slot,
          (ExceptT.run (Tracked.count .total >>= fun _ => next)).run before
            = (ExceptT.run next).run (before.addTotal 1) := fun _ => rfl
      rw [hcount]
      rcases RankingQuery.ofModel_okIff hquery ⟨some dictionary⟩ params with
        ⟨hp, q, hq⟩ | ⟨hp, refusal, hrefusal, hmissing⟩
      · rw [hq]
        exact .inl ⟨hp, _, rfl⟩
      · rw [hrefusal]
        refine .inr ⟨hp, .refused refusal, (before.addTotal 1).increment .errors, rfl, ?_⟩
        cases refusal with
        | missingParameters feature parameters => rfl
        | _ => exact hmissing.elim
  | prebuilt model => exact hquery.elim
  | boost inner factor ih =>
      unfold slot
      exact (ih hquery).bind_true fun _ _ => .pure _
  | anyTerm text => exact .pure _
  | phrase text => exact .pure _

/-- The slot of a query ranks when the query does. -/
theorem Becomes.isSome_ranking? {dictionary : Dictionary} {query : QueryRequest} {slot : Slot}
    (h : query.Becomes dictionary slot) : slot.query.ranking?.isSome = true ↔ query.IsRanking := by
  cases h with
  | byModel h caching hscores => exact iff_of_true rfl trivial
  | prebuilt h => exact iff_of_true rfl trivial
  | anyTerm text => exact iff_of_false Bool.false_ne_true id
  | phrase text => exact iff_of_false Bool.false_ne_true id
  | boost h factor =>
      cases h with
      | byModel h caching hscores => exact iff_of_true rfl trivial
      | prebuilt h => exact iff_of_true rfl trivial
      | boost h factor => exact iff_of_false Bool.false_ne_true id
      | anyTerm text => exact iff_of_false Bool.false_ne_true id
      | phrase text => exact iff_of_false Bool.false_ne_true id

end QueryRequest

/-! ## Requests -/

namespace SearchRequest

/-- All queries that a request asks: its filter, the scored ones, and those of its
    rescore stages. -/
def asked (request : SearchRequest) : List QueryRequest :=
  request.filter.toList ++ request.queries.map (·.2) ++ request.rescores.filterMap (·.query?)

/-- A request whose ranking queries are by compiled models. -/
def Compiled (request : SearchRequest) : Prop := ∀ query ∈ request.asked, query.Compiled

/-- A request whose features have all that they need. -/
def Supplied (request : SearchRequest) : Prop := ∀ query ∈ request.asked, query.Supplied

/-- How many queries by a model a request holds. -/
def rankings (request : SearchRequest) : Nat := (request.asked.map (·.rankings)).sum

/-- The last of the scored queries that have a name. -/
def lastNamed? (request : SearchRequest) (name : String) : Option QueryRequest :=
  (request.queries.reverse.find? (·.1 = some name)).map (·.2)

theorem forall_asked {request : SearchRequest} {p : QueryRequest → Prop} :
    (∀ query ∈ request.asked, p query) ↔
      (∀ query ∈ request.filter.toList, p query) ∧ (∀ x ∈ request.queries, p x.2) ∧
        ∀ stage ∈ request.rescores, ∀ query, stage.query? = some query → p query := by
  unfold asked
  rw [List.forall_mem_append, List.forall_mem_append, and_assoc, List.forall_mem_map]
  refine and_congr_right fun _ => and_congr_right fun _ => ?_
  simp only [List.mem_filterMap]
  exact ⟨fun h stage hstage query hquery => h query ⟨stage, hstage, hquery⟩,
    fun h query ⟨stage, hstage, hquery⟩ => h stage hstage query hquery⟩

theorem Compiled.accepted {request : SearchRequest} (h : request.Compiled) : request.Accepted := by
  obtain ⟨-, hqueries, hrescores⟩ := forall_asked.mp h
  exact ⟨fun x hx => (hqueries x hx).accepted,
    fun stage hstage query hquery => (hrescores stage hstage query hquery).accepted⟩

end SearchRequest

/-- Whether a spec points at a query that ranks: the last one of the name that it
    gives, or else that of the rescore stage of its place.  One that gives neither asks
    for no log. -/
def LogSpec.Resolves (request : SearchRequest) (spec : LogSpec) : Prop :=
  match spec.namedQuery, spec.rescoreIndex with
  | some name, _ => ∃ query, request.lastNamed? name = some query ∧ query.IsRanking
  | none, some place =>
    ∃ query, (request.rescores[place]?).bind (·.query?) = some query ∧ query.IsRanking
  | none, none => True

/-! ## Log specs -/

/-- The last item with a property, by its place. -/
theorem getElem?_find?_zipIdx_reverse {α : Type} (p : α → Bool) (items : List α) :
    (((items.zipIdx.reverse.find? fun x => p x.1).map (·.2)).bind (items[·]?))
      = items.reverse.find? p := by
  have hfind : items.reverse.find? p
      = (items.zipIdx.reverse.find? fun x => p x.1).map (·.1) := by
    have hfst : items.reverse = items.zipIdx.reverse.map (·.1) := by
      rw [List.map_reverse, List.zipIdx_map_fst]
    rw [hfst, List.find?_map]
    rfl
  rw [hfind]
  cases hfound : items.zipIdx.reverse.find? fun x => p x.1 with
  | none => rfl
  | some x =>
      have hmem := List.mem_reverse.mp (List.mem_of_find?_eq_some hfound)
      exact List.mem_zipIdx_iff_getElem?.mp hmem

/-- In related lists the last items with a property are related, where the property is
    the same for related items. -/
theorem find?_reverse_rel {α β : Type} {R : α → β → Prop} {p : α → Bool} {q : β → Bool}
    (hpq : ∀ a b, R a b → p a = q b) {as : List α} {bs : List β} (h : List.Forall₂ R as bs) :
    Option.Rel R (as.reverse.find? p) (bs.reverse.find? q) := by
  have hreverse := List.rel_reverse h
  revert hreverse
  generalize as.reverse = as'
  generalize bs.reverse = bs'
  intro hreverse
  induction hreverse with
  | nil => exact .none
  | @cons a b as bs hfirst _ ih =>
      rw [List.find?_cons, List.find?_cons, ← hpq a b hfirst]
      cases p a with
      | true => exact .some hfirst
      | false => exact ih

namespace ShardRequest

variable {dictionary : Dictionary} {settings : Settings} {request : SearchRequest}
  {queries : List Slot} {rescores : List (Rescore Slot)}

/-- A refusal that counts as no error. -/
def Uncounted (refusal : Refusal) : Prop := (Failure.refused refusal).errors = 0

/-- A slot beside the query of a request that it is for, with its name. -/
def Named (x : Option String × QueryRequest) (slot : Slot) : Prop :=
  slot.name = x.1 ∧ (slot.query.ranking?.isSome = true ↔ x.2.IsRanking)

/-- A stage beside the stage of a request that it is for. -/
def Staged (stage : Rescore QueryRequest) (stage' : Rescore Slot) : Prop :=
  Option.Rel (fun query slot => slot.query.ranking?.isSome = true ↔ query.IsRanking)
    stage.query? stage'.query?

/-- Nothing resolves where there is no query. -/
theorem none_okIff {refusal : Refusal} (h : Uncounted refusal) :
    OkIff Uncounted (.error refusal : Except Refusal LogTarget)
      (∃ query : QueryRequest, none = some query ∧ query.IsRanking) :=
  .error h fun ⟨_, hquery, _⟩ => nomatch hquery

/-- A query resolves when it ranks. -/
theorem ranking_okIff {query : QueryRequest} {slot : Slot}
    (h : slot.query.ranking?.isSome = true ↔ query.IsRanking) (target : LogTarget)
    {refusal : Refusal} (hrefusal : Uncounted refusal) :
    OkIff Uncounted (if slot.query.ranking?.isSome then .ok target else .error refusal)
      (∃ query', some query = some query' ∧ query'.IsRanking) := by
  split
  · next hranks => exact .inl ⟨⟨query, rfl, h.mp hranks⟩, target, rfl⟩
  · next hranks =>
      refine .error hrefusal ?_
      rintro ⟨query', hquery, hranking⟩
      rw [← Option.some.inj hquery] at hranking
      exact hranks (h.mpr hranking)

theorem resolveQuery_okIff (name : String) (h : List.Forall₂ Named request.queries queries) :
    OkIff Uncounted (resolveQuery name queries)
      (∃ query, request.lastNamed? name = some query ∧ query.IsRanking) := by
  have hrel := find?_reverse_rel (p := (·.1 = some name)) (q := fun slot => slot.name = some name)
    (fun x slot hx => by rw [hx.1]) h
  have hplace := getElem?_find?_zipIdx_reverse (fun slot : Slot => slot.name = some name) queries
  unfold resolveQuery placeOf? SearchRequest.lastNamed?
  generalize request.queries.reverse.find? _ = asked at hrel ⊢
  generalize (queries.zipIdx.reverse.find? _).map _ = place at hplace ⊢
  rw [← hplace] at hrel
  cases place with
  | none =>
      cases hrel
      exact none_okIff rfl
  | some place =>
      rw [Option.bind_some] at hrel
      cases hslot : queries[place]? with
      | none =>
          rw [hslot] at hrel
          cases hrel
          simp only [hslot]
          exact none_okIff rfl
      | some slot =>
          rw [hslot] at hrel
          cases hrel with
          | @some x _ hx =>
              simp only [hslot]
              exact ranking_okIff hx.2 (.query place) rfl

theorem resolveStage_okIff (place : Nat) (h : List.Forall₂ Staged request.rescores rescores) :
    OkIff Uncounted (resolveStage place rescores)
      (∃ query, (request.rescores[place]?).bind (·.query?) = some query ∧ query.IsRanking) := by
  unfold resolveStage
  cases hstage : rescores[place]? with
  | none =>
      have hbeyond : request.rescores[place]? = none := by
        rw [List.getElem?_eq_none_iff, h.length_eq, ← List.getElem?_eq_none_iff, hstage]
      rw [hbeyond]
      exact none_okIff rfl
  | some stage' =>
      obtain ⟨stage, hplace, hrel⟩ := forall₂_getElem? h.flip hstage
      have hrel : Option.Rel _ stage.query? stage'.query? := hrel
      rw [hplace, Option.bind_some]
      generalize stage.query? = asked at hrel ⊢
      cases hslot : stage'.query? with
      | none =>
          rw [hslot] at hrel
          cases hrel
          simp only [hslot]
          exact none_okIff rfl
      | some slot =>
          rw [hslot] at hrel
          cases hrel with
          | @some query _ hquery =>
              simp only [hslot]
              exact ranking_okIff hquery (.stage place) rfl

/-- **A spec resolves on a shard as it does in the request**; a refusal counts as no
    error. -/
theorem resolve_okIff (hqueries : List.Forall₂ Named request.queries queries)
    (hrescores : List.Forall₂ Staged request.rescores rescores) (spec : LogSpec) :
    OkIff Uncounted (resolve queries rescores spec) (spec.Resolves request) := by
  unfold resolve LogSpec.Resolves
  cases spec.namedQuery with
  | some name => exact (resolveQuery_okIff name hqueries).bind_ok fun _ => ⟨_, rfl⟩
  | none =>
      cases spec.rescoreIndex with
      | some place => exact (resolveStage_okIff place hrescores).bind_ok fun _ => ⟨_, rfl⟩
      | none => exact .ok none

/-! ## Requests on a shard -/

/-- The stage of a request is made when its query is supplied. -/
theorem stage_succeeds {stage' : Rescore QueryRequest}
    (hstage : ∀ query, stage'.query? = some query → query.Compiled) :
    (stage dictionary settings stage').SucceedsIff
      (∀ query, stage'.query? = some query → query.Supplied)
      ((stage'.query?.map (·.rankings)).getD 0) := by
  cases stage' with
  | scale factor window =>
      exact (SucceedsIff.pure _).of_iff (iff_of_true trivial fun _ h => nomatch h)
  | query query queryWeight rescoreWeight window =>
      unfold stage
      refine ((query.slot_succeeds (hstage query rfl) dictionary settings).bind_true
        fun _ _ => .pure _).of_iff ?_
      exact ⟨fun h query' heq => Option.some.inj heq ▸ h, fun h => h query rfl⟩

/-- What the slots and stages of a request taken apart are for. -/
theorem named_of_yields {x : Option String × QueryRequest} {slot : Slot}
    (h : Tracked.Yields (do
      return { ← x.2.slot dictionary settings with name := x.1 }) slot) :
    Named x slot := by
  obtain ⟨slot', hslot', h⟩ := yields_bind h
  rw [← yields_pure h]
  exact ⟨rfl, (QueryRequest.slot_becomes hslot').isSome_ranking?⟩

theorem staged_of_yields {stage' : Rescore QueryRequest} {made : Rescore Slot}
    (h : (stage dictionary settings stage').Yields made) : Staged stage' made := by
  cases stage' with
  | scale factor window =>
      rw [← yields_pure h]
      exact .none
  | query query queryWeight rescoreWeight window =>
      obtain ⟨slot, hslot, h⟩ := yields_bind h
      rw [← yields_pure h]
      exact .some (QueryRequest.slot_becomes hslot).isSome_ranking?

/-- **A request can be taken apart when its features are supplied and its logs
    resolve.**  Each query by a model is counted, and a failure counts an error just
    when parameters are missing. -/
theorem ofRequest_succeeds (hrequest : request.Compiled) (dictionary : Dictionary)
    (settings : Settings) :
    (ofRequest dictionary settings request).SucceedsIff
      (request.Supplied ∧ ∀ spec ∈ request.logs, spec.Resolves request) request.rankings := by
  obtain ⟨hfilter, hqueries, hrescores⟩ := SearchRequest.forall_asked.mp hrequest
  have htotal : (request.filter.toList.map (·.rankings)).sum +
      ((request.queries.map (·.2.rankings)).sum +
        ((request.rescores.map fun s => (s.query?.map (·.rankings)).getD 0).sum + 0))
      = request.rankings := by
    have hstages : ∀ stages : List (Rescore QueryRequest),
        (stages.map fun s => (s.query?.map (·.rankings)).getD 0).sum
          = ((stages.filterMap (·.query?)).map (·.rankings)).sum := by
      intro stages
      induction stages with
      | nil => rfl
      | cons first rest ih =>
          cases hquery : first.query? with
          | none => simp [hquery, ih]
          | some query => simp [hquery, ih]
    rw [hstages, Nat.add_zero]
    simp [SearchRequest.rankings, SearchRequest.asked, Function.comp_def]
  rw [← htotal]
  unfold ofRequest
  refine SucceedsIff.of_iff (SucceedsIff.bind (SucceedsIff.mapM_option fun query hquery =>
      query.slot_succeeds (hfilter query (Option.mem_toList.mpr hquery)) dictionary settings)
    fun filter _ => SucceedsIff.bind (SucceedsIff.mapM fun x hx =>
      ((x.2.slot_succeeds (hqueries x hx) dictionary settings).bind_true fun _ _ => .pure _))
    fun slots hslots => SucceedsIff.bind (SucceedsIff.mapM fun s hs =>
      stage_succeeds (hrescores s hs))
    fun stages hstages => SucceedsIff.bind_true (SucceedsIff.ofExcept (OkIff.mapM fun spec _ =>
      resolve_okIff ((yields_mapM hslots).imp fun _ _ => named_of_yields)
        ((yields_mapM hstages).imp fun _ _ => staged_of_yields) spec))
    fun _ _ => .pure _) ?_
  rw [SearchRequest.Supplied, SearchRequest.forall_asked, and_assoc, and_assoc]

end ShardRequest

end FeatureRank
