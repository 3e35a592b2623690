import FeatureRank.Proofs.Search.Fetching

/-! # Observation does not change the ranking

    Requests may differ in what they want to know besides the ranking: in explanations,
    in logs, and in which of their queries keep feature scores (`SearchRequest.Like`).
    On a shard they become slots of the same queries, and none of these holds a score
    yet (`Slot.Alike`).

    A scored query scores a document once in its passes, and the query of a stage once in
    its visits.  So no score is read back while a shard is scored, the hits are the same
    after the passes and after every stage (`ShardRequest.Alike.score`), and as fetching
    never fails the searches end alike (`Engine.observation_invisible`). -/

namespace FeatureRank

open Tracked

/-! ## Requests -/

/-- Requests by the same query, which may keep feature scores or not. -/
inductive QueryRequest.Like : QueryRequest → QueryRequest → Prop where
  | byModel (model : Model) (params : Params) (caching caching' : Option Bool) :
      Like (.byModel model params caching) (.byModel model params caching')
  | prebuilt (model : Model) : Like (.prebuilt model) (.prebuilt model)
  | boost {query query' : QueryRequest} (h : Like query query') (factor : Float32) :
      Like (.boost query factor) (.boost query' factor)
  | anyTerm (text : String) : Like (.anyTerm text) (.anyTerm text)
  | phrase (text : String) : Like (.phrase text) (.phrase text)

/-- Stages that differ at most in their queries, which are related. -/
inductive Rescore.Rel {κ ι : Type} (R : κ → ι → Prop) : Rescore κ → Rescore ι → Prop where
  | query {a : κ} {b : ι} (h : R a b) (queryWeight rescoreWeight : Float32) (window : Nat) :
      Rel R (.query a queryWeight rescoreWeight window) (.query b queryWeight rescoreWeight window)
  | scale (factor : Float32) (window : Nat) : Rel R (.scale factor window) (.scale factor window)

namespace SearchRequest

/-- Requests that differ at most in what they observe: in their logs and the names that
    these use, in whether hits are explained, and in which queries keep feature scores. -/
structure Like (a b : SearchRequest) : Prop where
  filter : Option.Rel QueryRequest.Like a.filter b.filter
  queries : List.Forall₂ (fun x y => x.2.Like y.2) a.queries b.queries
  rescores : List.Forall₂ (Rescore.Rel QueryRequest.Like) a.rescores b.rescores
  size : a.size = b.size
  global : a.global = b.global

/-- A request whose logs all point at queries that can be logged. -/
def Resolves (dictionary : Dictionary) (settings : Settings) (request : SearchRequest) : Prop :=
  ∀ r, (ShardRequest.ofRequest dictionary settings { request with logs := [] }).Yields r →
    ∃ loggers, request.logs.mapM (ShardRequest.resolve r.queries r.rescores) = .ok loggers

end SearchRequest

theorem QueryRequest.Like.accepted {a b : QueryRequest} (h : a.Like b) (ha : a.Accepted) :
    b.Accepted := by
  induction h with
  | byModel model params caching caching' => exact ha
  | prebuilt model => exact ha
  | boost h factor ih => exact ih ha
  | anyTerm text => trivial
  | phrase text => trivial

theorem SearchRequest.Like.accepted {a b : SearchRequest} (h : a.Like b) (ha : a.Accepted) :
    b.Accepted := by
  constructor
  · intro y hy
    obtain ⟨x, hx, hlike⟩ := forall₂_mem h.queries.flip hy
    exact hlike.accepted (ha.queries x hx)
  · intro stage' hstage' query' hquery'
    obtain ⟨stage, hstage, hlike⟩ := forall₂_mem h.rescores.flip hstage'
    cases hlike with
    | scale factor window => cases hquery'
    | @query query _ hlike queryWeight rescoreWeight window =>
        obtain rfl := Option.some.inj hquery'
        exact hlike.accepted (ha.rescores _ hstage query rfl)

/-! ## Slots -/

/-- Slots of the same query that hold no scores, whether or not they will keep any. -/
structure Slot.Alike (a b : Slot) : Prop where
  query : a.query = b.query
  weights : a.weights = b.weights
  left : a.scores = none ∨ a.scores = some .empty
  right : b.scores = none ∨ b.scores = some .empty

/-- **Like queries become alike slots.** -/
theorem QueryRequest.Like.slot {dictionary : Dictionary} {settings : Settings}
    {a b : QueryRequest} (h : a.Like b) :
    Matches Slot.Alike (a.slot dictionary settings) (b.slot dictionary settings) := by
  induction h with
  | byModel model params caching caching' =>
      -- a score cache that is asked for starts empty
      have hunscored : ∀ keep : Bool, (if keep then some ScoreCache.empty else none) = none ∨
          (if keep then some ScoreCache.empty else none) = some .empty := by
        intro keep
        cases keep
        · exact .inl rfl
        · exact .inr rfl
      rw [QueryRequest.slot, QueryRequest.slot]
      refine (Matches.of_eq rfl).bind fun _ _ _ _ _ => ?_
      cases RankingQuery.ofModel model ⟨some dictionary⟩ params with
      | ok query => exact .pure ⟨rfl, rfl, hunscored _, hunscored _⟩
      | error refusal => exact (Matches.of_eq rfl).bind fun _ _ _ _ _ => .throw _
  | prebuilt model =>
      refine (Matches.of_eq rfl).bind ?_
      rintro query _ rfl - -
      exact .pure ⟨rfl, rfl, .inl rfl, .inl rfl⟩
  | boost h factor ih =>
      refine ih.bind fun a b hslot _ _ => ?_
      exact .pure ⟨by rw [hslot.query], hslot.weights, hslot.left, hslot.right⟩
  | anyTerm text => exact .pure ⟨rfl, rfl, .inl rfl, .inl rfl⟩
  | phrase text => exact .pure ⟨rfl, rfl, .inl rfl, .inl rfl⟩

/-- Alike slots with the same weight. -/
structure WeightedSlot.Alike (a b : WeightedSlot) : Prop where
  weight : a.weight = b.weight
  slot : a.slot.Alike b.slot

/-- **Alike slots get the same weight.** -/
theorem Slot.Alike.weighted {a b : Slot} (h : a.Alike b) (searcher : Searcher)
    (settings : Settings) (mode : ScoreMode) :
    Matches WeightedSlot.Alike (a.weighted searcher settings mode)
      (b.weighted searcher settings mode) := by
  rw [Slot.weighted, Slot.weighted, h.query, h.weights]
  cases b.query.weight searcher settings.enabled mode b.weights with
  | mk made outcome =>
      refine (Matches.of_eq rfl).bind fun _ _ _ _ _ => ?_
      refine (Matches.of_eq rfl).bind ?_
      rintro w _ rfl - -
      exact .pure ⟨rfl, rfl, rfl, h.left, h.right⟩

/-! ## Scoring a shard -/

section

variable {docs : List IndexedDocument} {s : Shard} {global : Option GlobalStatistics}
  {settings : Settings}

/-- What is kept does not matter for a document of which nothing is kept. -/
theorem WeightedSlot.sumOn_alike {slots slots' : List WeightedSlot}
    (h : List.Forall₂ WeightedSlot.Alike slots slots') (x : List TermId × Nat) :
    ∀ sum, sumOn 0 slots x sum = sumOn 0 slots' x sum := by
  induction h with
  | nil => exact fun _ => rfl
  | @cons w w' rest rest' hfirst _ ih =>
      intro sum
      have hadd : w.addOn 0 x sum = w'.addOn 0 x sum := by
        simp only [addOn, hfirst.weight, Plan.get?_unscored hfirst.slot.left,
          Plan.get?_unscored hfirst.slot.right]
      show sumOn 0 rest x (w.addOn 0 x sum) = sumOn 0 rest' x (w'.addOn 0 x sum)
      rw [hadd, ih]

/-- **Alike queries have the same hits.** -/
theorem Slot.scoreAll_alike (hs : s.Holds docs) {filter filter' : Option Slot}
    (hfilter : Option.Rel Slot.Alike filter filter') {slots slots' : List Slot}
    (hslots : List.Forall₂ Slot.Alike slots slots') (hfits : ∀ slot ∈ slots, slot.Fits)
    (hfits' : ∀ slot ∈ slots', slot.Fits) :
    Matches (fun x y => x.2 = y.2) (scoreAll ⟨s, global⟩ settings filter slots)
      (scoreAll ⟨s, global⟩ settings filter' slots') := by
  rw [scoreAll, scoreAll]
  refine (Matches.mapM_option hfilter fun a b h => h.weighted _ _ _).bind ?_
  intro f f' hf _ _
  refine (Matches.mapM (hslots.imp fun a b h => h.weighted _ _ _)).bind ?_
  intro ws ws' hws hyields hyields'
  have hlets : f.map (·.weight) = f'.map (·.weight) := by
    cases hf with
    | none => rfl
    | some h => exact congrArg some h.weight
  show Matches _
    (Tracked.ofChecked (WeightedSlot.scoreSegments settings (f.map (·.weight)) s.readers ws) >>= _)
    (Tracked.ofChecked (WeightedSlot.scoreSegments settings (f'.map (·.weight)) s.readers ws')
      >>= _)
  rw [hs.scoreSegments settings _ (Slot.weighted_fits hfits hyields),
    hs.scoreSegments settings _ (Slot.weighted_fits hfits' hyields'), hlets]
  refine .pure (List.filterMap_congr fun x _ => ?_)
  rw [WeightedSlot.hitOn, WeightedSlot.hitOn, WeightedSlot.sumOn_alike hws]

namespace Rescore

/-- **Alike stages give the same hits.** -/
theorem apply_alike (hs : s.Holds docs) {stage stage' : Rescore Slot}
    (h : Rel Slot.Alike stage stage') (hfits : stage.Fits) (hfits' : stage'.Fits)
    {hits : List ShardHit} (hhits : (hits.map (·.doc)).Nodup) :
    Matches (fun x y => x.2 = y.2) (apply ⟨s, global⟩ settings hits stage)
      (apply ⟨s, global⟩ settings hits stage') := by
  cases h with
  | scale factor window => exact .pure rfl
  | @query slot slot' h queryWeight rescoreWeight window =>
      rw [apply_query, apply_query]
      refine (h.weighted _ _ _).bind ?_
      intro w w' halike hw hw'
      obtain ⟨visits, hvisits, herased⟩ :=
        hs.visit ((hfits slot rfl).weighted hw) (bestDocs_nodup hhits window)
      obtain ⟨visits', hvisits', herased'⟩ :=
        hs.visit ((hfits' slot' rfl).weighted hw') (bestDocs_nodup hhits window)
      -- nothing is kept of the documents that are visited
      have hsame : eraseInside visits = eraseInside visits' := by
        rw [eraseInside, eraseInside, herased, herased', QueryWeight.visitsOn,
          QueryWeight.visitsOn, halike.weight]
        simp only [Plan.get?_unscored halike.slot.left, Plan.get?_unscored halike.slot.right]
      rw [hvisits, hvisits']
      exact .pure (congrArg (rescored settings queryWeight rescoreWeight window hits) hsame)

theorem applyAll_alike (hs : s.Holds docs) {stages stages' : List (Rescore Slot)}
    (h : List.Forall₂ (Rel Slot.Alike) stages stages') :
    ∀ {settings : Settings} {hits : List ShardHit}, (hits.map (·.doc)).Nodup →
      (∀ stage ∈ stages, stage.Fits) → (∀ stage ∈ stages', stage.Fits) →
      Matches (fun x y => x.2 = y.2) (applyAll ⟨s, global⟩ settings stages hits)
        (applyAll ⟨s, global⟩ settings stages' hits) := by
  induction h with
  | nil => exact fun _ _ _ => .pure rfl
  | @cons stage stage' rest rest' hfirst _ ih =>
      intro settings hits hhits hfits hfits'
      obtain ⟨hfit, hfits⟩ := List.forall_mem_cons.mp hfits
      obtain ⟨hfit', hfits'⟩ := List.forall_mem_cons.mp hfits'
      rw [applyAll, applyAll]
      refine (apply_alike hs hfirst hfit hfit' hhits).bind ?_
      rintro ⟨after, between⟩ ⟨after', _⟩ rfl hyields -
      have hbetween := (apply_yields hyields).2.nodup_iff.mpr hhits
      refine (ih hbetween hfits hfits').bind ?_
      rintro ⟨others, last⟩ ⟨others', _⟩ rfl - -
      exact .pure rfl

end Rescore

/-- Requests on a shard whose slots are alike, one by one. -/
structure ShardRequest.Alike (r r' : ShardRequest) : Prop where
  filter : Option.Rel Slot.Alike r.filter r'.filter
  queries : List.Forall₂ Slot.Alike r.queries r'.queries
  rescores : List.Forall₂ (Rescore.Rel Slot.Alike) r.rescores r'.rescores

namespace ShardRequest

/-- **Alike requests have the same hits**, after their queries and after every stage. -/
theorem Alike.score {r r' : ShardRequest} (h : r.Alike r') (hs : s.Holds docs) (hr : r.Fits)
    (hr' : r'.Fits) :
    Matches (fun x y => x.2 = y.2) (r.score ⟨s, global⟩ settings)
      (r'.score ⟨s, global⟩ settings) := by
  rw [ShardRequest.score, ShardRequest.score]
  refine (Slot.scoreAll_alike hs h.filter h.queries hr.queries hr'.queries).bind ?_
  rintro ⟨slots, hits⟩ ⟨slots', _⟩ rfl hyields -
  have hhits := (Slot.scoreAll_fits hs hr.queries hyields).2
  refine (Rescore.applyAll_alike hs h.rescores hhits hr.rescores hr'.rescores).bind ?_
  rintro ⟨stages, last⟩ ⟨stages', _⟩ rfl - -
  exact .pure rfl

/-- Alike requests need the same statistics. -/
theorem Alike.terms {r r' : ShardRequest} (h : r.Alike r') : r.terms = r'.terms := by
  have hfilter : ∀ {a b : Option Slot}, Option.Rel Slot.Alike a b →
      List.Forall₂ Slot.Alike a.toList b.toList := by
    intro a b hrel
    cases hrel with
    | none => exact .nil
    | some h => exact .cons h .nil
  have hstages : List.Forall₂ Slot.Alike (r.rescores.filterMap (·.query?))
      (r'.rescores.filterMap (·.query?)) := by
    refine List.rel_filterMap ?_ h.rescores
    intro stage stage' hstage
    cases hstage with
    | query h queryWeight rescoreWeight window => exact .some h
    | scale factor window => exact .none
  have hslots : List.Forall₂ Slot.Alike
      (r.filter.toList ++ r.queries ++ r.rescores.filterMap (·.query?))
      (r'.filter.toList ++ r'.queries ++ r'.rescores.filterMap (·.query?)) :=
    List.rel_append (List.rel_append (hfilter h.filter) h.queries) hstages
  have hterms := map_eq_of_forall₂ (f := fun slot : Slot => slot.query.terms)
    (g := fun slot : Slot => slot.query.terms) (hslots.imp fun a b h => congrArg Query.terms h.query)
  rw [ShardRequest.terms, ShardRequest.terms, List.flatMap_def, List.flatMap_def, hterms]

/-! ## Taking requests apart -/

/-- Logs are resolved once everything else of a request is taken apart. -/
theorem ofRequest_eq (dictionary : Dictionary) (settings : Settings) (request : SearchRequest) :
    ofRequest dictionary settings request = (do
      let r ← ofRequest dictionary settings { request with logs := [] }
      let loggers ← Tracked.ofExcept (request.logs.mapM (resolve r.queries r.rescores))
      return { r with loggers := loggers.filterMap id }) := by
  simp only [ofRequest, bind_assoc]
  rfl

/-- **Like requests are taken apart to alike ones**, when their logs resolve. -/
theorem ofRequest_alike {dictionary : Dictionary} {a b : SearchRequest} (h : a.Like b)
    (ha : a.Resolves dictionary settings) (hb : b.Resolves dictionary settings) :
    Matches Alike (ofRequest dictionary settings a) (ofRequest dictionary settings b) := by
  have hbare : Matches Alike (ofRequest dictionary settings { a with logs := [] })
      (ofRequest dictionary settings { b with logs := [] }) := by
    rw [ofRequest, ofRequest]
    refine (Matches.mapM_option h.filter fun x y hlike => hlike.slot).bind ?_
    intro filter filter' hfilter _ _
    refine Matches.bind (R := List.Forall₂ Slot.Alike) (Matches.mapM (h.queries.imp ?_)) ?_
    · exact fun x y hlike => hlike.slot.bind fun slot slot' hslot _ _ =>
        .pure ⟨hslot.query, hslot.weights, hslot.left, hslot.right⟩
    intro queries queries' hqueries _ _
    refine Matches.bind (R := List.Forall₂ (Rescore.Rel Slot.Alike))
      (Matches.mapM (h.rescores.imp ?_)) ?_
    · intro stage stage' hlike
      cases hlike with
      | scale factor window => exact .pure (.scale factor window)
      | query hlike queryWeight rescoreWeight window =>
          exact hlike.slot.bind fun slot slot' hslot _ _ => .pure (.query hslot _ _ _)
    intro rescores rescores' hrescores _ _
    exact .pure ⟨hfilter, hqueries, hrescores⟩
  rw [ofRequest_eq, ofRequest_eq dictionary settings b]
  refine hbare.bind fun r r' halike hr hr' => ?_
  obtain ⟨loggers, hloggers⟩ := ha r hr
  obtain ⟨loggers', hloggers'⟩ := hb r' hr'
  rw [hloggers, hloggers']
  exact .pure ⟨halike.filter, halike.queries, halike.rescores⟩

end ShardRequest

end

/-! ## Searches -/

namespace Engine

/-- Parts of like requests for one shard. -/
structure Alike (part part' : Nat × Shard × ShardRequest) : Prop where
  place : part.1 = part'.1
  shard : part.2.1 = part'.2.1
  request : part.2.2.Alike part'.2.2
  fits : part.2.2.Fits
  fits' : part'.2.2.Fits
  documents : ∃ docs, part.2.1.Holds docs

/-- **Alike parts have the same candidates.** -/
theorem scoreParts_alike {settings : Settings} {global : Option GlobalStatistics}
    {parts parts' : Parts} (h : List.Forall₂ Alike parts parts') :
    Matches (fun x y => x.2 = y.2) (scoreParts settings global parts)
      (scoreParts settings global parts') := by
  refine (scoreParts_matches (S := fun _ _ => True) ?_ h).mono fun x y hsame => hsame.2
  rintro ⟨place, shard, r⟩ ⟨place', shard', r'⟩
    ⟨hplace, hshard, hrequest, hfits, hfits', docs, hs⟩
  obtain rfl : place = place' := hplace
  obtain rfl : shard = shard' := hshard
  refine (hrequest.score hs hfits hfits').mono fun x y hhits => ?_
  exact ⟨trivial, congrArg (hitsOf place shard) hhits⟩

theorem parts_alike {e : Engine} (hbuilt : e.Built) {a b : SearchRequest} (h : a.Like b)
    (haccepted : a.Accepted) (ha : a.Resolves e.dictionary e.settings)
    (hb : b.Resolves e.dictionary e.settings) :
    Matches (List.Forall₂ Alike) (e.parts a) (e.parts b) := by
  refine Matches.mapM (List.forall₂_same.mpr ?_)
  rintro ⟨shard, place⟩ hmem
  have hshard : shard ∈ e.shards :=
    Array.mem_toList_iff.mp (List.fst_mem_of_mem_zipIdx hmem)
  refine (ShardRequest.ofRequest_alike h ha hb).bind fun r r' halike hr hr' => ?_
  exact .pure ⟨rfl, rfl, halike, ShardRequest.ofRequest_fits haccepted hr,
    ShardRequest.ofRequest_fits (h.accepted haccepted) hr', (hbuilt shard hshard).holds⟩

/-- **Like requests have the same candidates.** -/
theorem scored_alike {e : Engine} (hbuilt : e.Built) {a b : SearchRequest} (h : a.Like b)
    (haccepted : a.Accepted) (ha : a.Resolves e.dictionary e.settings)
    (hb : b.Resolves e.dictionary e.settings) :
    Matches (fun x y => x.2.2 = y.2.2) (e.scored a) (e.scored b) := by
  refine (parts_alike hbuilt h haccepted ha hb).bind fun parts parts' hparts _ _ => ?_
  -- the queries are of the same terms, so the same statistics are collected for them
  have hterms : (parts.flatMap fun part => part.2.2.terms)
      = parts'.flatMap fun part => part.2.2.terms := by
    rw [List.flatMap_def, List.flatMap_def,
      map_eq_of_forall₂ (hparts.imp fun part part' h => h.request.terms)]
  have hglobal : e.globalOf a parts = e.globalOf b parts' := by
    show (if a.global then _ else _) = if b.global then _ else _
    rw [h.global]
    exact congrArg (fun terms => if b.global then
      some (GlobalStatistics.collect e.shards.toList (distinctTerms terms)) else none) hterms
  rw [hglobal]
  refine (scoreParts_alike hparts).bind ?_
  rintro ⟨after, candidates⟩ ⟨after', _⟩ rfl - -
  exact .pure rfl

/-- Responses with as many candidates and the same hits, as far as their keys, shards,
    documents and scores go. -/
def SameRanking (a b : SearchResponse) : Prop :=
  a.total = b.total ∧ a.hits.map SearchHit.bare = b.hits.map SearchHit.bare

/-- **Observation is invisible**: requests that differ at most in explanations, in logs
    that resolve and in which feature scores they keep end alike, with the same failure or
    with the same ranking. -/
theorem observation_invisible {e : Engine} (hbuilt : e.Built) {a b : SearchRequest}
    (h : a.Like b) (haccepted : a.Accepted) (ha : a.Resolves e.dictionary e.settings)
    (hb : b.Resolves e.dictionary e.settings) :
    EndAlike SameRanking (e.search a).2 (e.search b).2 := by
  -- either search ends as its scoring does, and the scorings end alike
  have hscored : EndAlike (fun x y => x.2.2 = y.2.2) (e.track (e.scored a)).2
      (e.track (e.scored b)).2 := (scored_alike hbuilt h haccepted ha hb e.counters).2
  have hends := (search_ends hbuilt haccepted).symm.trans hscored
    (T := fun response y => response.total = y.2.2.length ∧
      response.hits.map SearchHit.bare = (SearchHit.sort y.2.2).take a.size) (by
    rintro response x y ⟨htotal, hhits⟩ hsame
    rw [← hsame]
    exact ⟨htotal, hhits⟩)
  refine hends.trans (search_ends hbuilt (h.accepted haccepted)) ?_
  rintro response y response' ⟨htotal, hhits⟩ ⟨htotal', hhits'⟩
  rw [← h.size] at hhits'
  exact ⟨htotal.trans htotal'.symm, hhits.trans hhits'.symm⟩

/-- A query by a model without and with a score cache, a log and an explanation. -/
theorem observation_invisible_watched :
    let model : Model :=
      ⟨"m", ⟨"m", [.prebuilt "rare" .nothing, .prebuilt "two" (.constant 2.0)]⟩,
        .linear "m" [1.0, 1.0] 0.5, 0⟩
    let e : Engine := { shards := #[(Shard.empty.add "a" [] 1).1] }
    let bare : SearchRequest := { queries := [(none, .byModel model [] (some false))] }
    let watched : SearchRequest := {
      queries := [(some "q", .byModel model [] (some true))]
      logs := [{ name := some "log", namedQuery := some "q" }]
      explain := true }
    let hit : SearchHit := { key := "a", shard := 0, doc := 1, score := 2.5 }
    (e.search bare).2 = .ok ⟨1, [hit]⟩ ∧
      ∃ response, (e.search watched).2 = .ok response ∧ response.total = 1 ∧
        response.hits.map SearchHit.bare = [hit] := by
  intro model e bare watched hit
  let shard := (Shard.empty.add "a" [] 1).1
  let q : RankingQuery := ⟨[.nothing, .constant 2.0], model.features, model.ranker, 0⟩
  let r : ShardRequest := ⟨none, [{ query := .ranking q }], [], []⟩
  let after : ShardRequest := { r with queries := [{
    query := .ranking q
    weights := (q.weight ⟨shard, none⟩ .empty).1 }] }
  have hscored : (ExceptT.run (e.scored bare)).run e.counters
      = (.ok ([(0, shard, r)], [(0, shard, after)], [hit]), { total := 1 }) := by
    subst after r q shard hit watched bare e model
    rfl
  have hfetched : (ExceptT.run (e.fetchParts bare [(0, shard, r)] [(0, shard, after)]
        [hit])).run { total := 1 }
      = (.ok [[hit]], { total := 1 }) := by
    simp only [fetchParts, SearchHit.sort_singleton]
    rfl
  have hsearch : (e.search bare).2 = .ok ⟨1, SearchHit.sort [hit]⟩ := search_ok hscored hfetched
  rw [SearchHit.sort_singleton] at hsearch
  refine ⟨hsearch, ?_⟩
  have hbuilt : e.Built := Built.single (Shard.Built.empty.add "a" [] 1)
  have hlike : bare.Like watched := ⟨.none, .cons (.byModel ..) .nil, .nil, rfl, rfl⟩
  have haccepted : bare.Accepted := by
    refine ⟨?_, fun _ hmem => nomatch hmem⟩
    intro x hmem
    rw [List.mem_singleton.mp hmem]
    rfl
  have hresolves : watched.Resolves e.dictionary e.settings := by
    intro found hfound
    have hends : (ShardRequest.ofRequest e.dictionary e.settings { watched with logs := [] }).Ends
        (.ok ⟨none, [{ query := .ranking q, name := some "q", scores := some .empty }], [], []⟩) :=
      fun _ => rfl
    obtain rfl := Except.ok.inj (hends.eq_of_yields hfound)
    exact ⟨_, rfl⟩
  have hsame := observation_invisible hbuilt hlike haccepted (fun _ _ => ⟨[], rfl⟩) hresolves
  rw [hsearch] at hsame
  generalize (e.search watched).2 = outcome at hsame ⊢
  cases hsame with
  | @ok _ response h => exact ⟨response, rfl, h.1.symm, h.2.symm⟩

end Engine

end FeatureRank
