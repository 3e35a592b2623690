import FeatureRank.Proofs.Search.Ends
import FeatureRank.Proofs.Search.Logging
import FeatureRank.Proofs.Search.Request
import FeatureRank.Search.Engine
import Mathlib.Data.List.Perm.Subperm

/-! # Searches — where a hit of a response comes from

    A search takes the request apart for each shard, scores all shards
    (`Engine.scored`), and fetches the best hits of each.  Every hit of the response
    was scored on its shard and logged there by the part of the request for that
    shard (`Engine.search_hit`). -/

namespace FeatureRank

open Tracked

@[simp] theorem SearchHit.sort_singleton (hit : SearchHit) : sort [hit] = [hit] :=
  List.mergeSort_singleton hit

namespace Engine

/-- An engine whose shards documents built. -/
def Built (e : Engine) : Prop := ∀ shard ∈ e.shards, shard.Built

theorem Built.ofShards (count : Nat) (settings : Settings) : (ofShards count settings).Built := by
  intro shard hmem
  have hmem : shard ∈ Array.replicate (max count 1) Shard.empty := hmem
  rw [(Array.mem_replicate.mp hmem).2]
  exact Shard.Built.empty

theorem Built.single {shard : Shard} (h : shard.Built) : Built { shards := #[shard] } := by
  intro other hmem
  rw [Array.mem_singleton.mp hmem]
  exact h

/-- **Adding documents keeps an engine built.** -/
theorem Built.add {e e' : Engine} {d : SourceDocument} {doc : Nat} (h : e.Built)
    (hadd : e.add d = .ok (e', doc)) : e'.Built := by
  cases hshard : e.shards[(d.shard.getD e.docCount) % e.shardCount]? with
  | none =>
      simp only [Engine.add, hshard] at hadd
      exact nomatch hadd
  | some shard =>
      simp only [Engine.add, hshard] at hadd
      rw [← (Prod.mk.inj (Except.ok.inj hadd)).1]
      intro other hmem
      rcases Array.mem_or_eq_of_mem_setIfInBounds hmem with hold | hnew
      · exact h other hold
      · rw [hnew]
        exact (h shard (Array.mem_of_getElem? hshard)).add _ _ _

theorem Built.addAll {documents : List SourceDocument} :
    ∀ {e e' : Engine}, e.Built → e.addAll documents = .ok e' → e'.Built := by
  induction documents with
  | nil =>
      intro e e' h hadd
      rw [← Except.ok.inj hadd]
      exact h
  | cons d rest ih =>
      intro e e' h hadd
      obtain ⟨between, hbetween, hrest⟩ := bind_eq_ok.mp hadd
      obtain ⟨⟨next, doc⟩, hnext, heq⟩ := bind_eq_ok.mp hbetween
      rw [← Except.ok.inj heq] at hrest
      exact ih (h.add hnext) hrest

/-! ## Scoring all shards -/

/-- The parts of a request before and after all shards are scored, with the hits of
    all shards. -/
def scored (e : Engine) (request : SearchRequest) :
    Tracked (Parts × Parts × List SearchHit) := do
  let parts ← e.parts request
  let (after, candidates) ← scoreParts e.settings (e.globalOf request parts) parts
  return (parts, after, candidates)

/-- What is scored are the parts of the request. -/
theorem scored_yields {e : Engine} {request : SearchRequest}
    {found : Parts × Parts × List SearchHit} (h : (e.scored request).Yields found) :
    (e.parts request).Yields found.1 ∧
      (scoreParts e.settings (e.globalOf request found.1) found.1).Yields found.2 := by
  obtain ⟨parts, hparts, h⟩ := yields_bind h
  obtain ⟨⟨after, candidates⟩, hscored, h⟩ := yields_bind h
  obtain rfl := yields_pure h
  exact ⟨hparts, hscored⟩

/-- What a computation of an engine ends with. -/
theorem track_eq_ok {α : Type} {e : Engine} {run : Tracked α} {a : α}
    (h : (e.track run).2 = .ok a) :
    ∃ after, (ExceptT.run run).run e.counters = (.ok a, after) :=
  ⟨((ExceptT.run run).run e.counters).2, Prod.ext h rfl⟩

/-- A part of a request for each shard. -/
theorem parts_yields {e : Engine} {request : SearchRequest} {parts : Parts}
    (h : (e.parts request).Yields parts) {k : Nat} {part : Nat × Shard × ShardRequest}
    (hk : parts[k]? = some part) :
    part.1 = k ∧ part.2.1 ∈ e.shards ∧
      (ShardRequest.ofRequest e.dictionary e.settings request).Yields part.2.2 := by
  obtain ⟨⟨shard, place⟩, hshard, hpart⟩ := forall₂_getElem? (yields_mapM h).flip hk
  obtain ⟨r, hr, heq⟩ := yields_bind hpart
  rw [← yields_pure heq]
  rw [List.getElem?_zipIdx] at hshard
  obtain ⟨found, hfound, hpair⟩ := Option.map_eq_some_iff.mp hshard
  obtain ⟨hsame, hplace⟩ := Prod.mk.inj hpair
  refine ⟨?_, ?_, hr⟩
  · show place = k
    omega
  · rw [← hsame]
    exact Array.mem_toList_iff.mp (List.mem_iff_getElem?.mpr ⟨k, hfound⟩)

/-- The hits of a shard are at its place. -/
theorem shard_hitsOf {place : Nat} {shard : Shard} {hits : List ShardHit} {c : SearchHit}
    (h : c ∈ hitsOf place shard hits) : c.shard = place ∧ c.logs = {} := by
  obtain ⟨hit, -, heq⟩ := List.mem_map.mp h
  rw [← heq]
  exact ⟨rfl, rfl⟩

/-- Of the hits of a shard, those at its place are all and those elsewhere none. -/
theorem filter_hitsOf (place other : Nat) (shard : Shard) (hits : List ShardHit) :
    (hitsOf place shard hits).filter (·.shard == other)
      = if place = other then hitsOf place shard hits else [] := by
  by_cases h : place = other
  · rw [if_pos h]
    exact List.filter_eq_self.mpr fun c hc => beq_iff_eq.mpr ((shard_hitsOf hc).1.trans h)
  · rw [if_neg h]
    refine List.filter_eq_nil_iff.mpr fun c hc heq => h ?_
    exact (shard_hitsOf hc).1.symm.trans (beq_iff_eq.mp heq)

/-- **Each shard is scored by itself**, and its hits are those at its place. -/
theorem scoreParts_yields {settings : Settings} {global : Option GlobalStatistics}
    {parts : Parts} :
    ∀ {first : Nat} {after : Parts} {candidates : List SearchHit},
      (∀ (k : Nat) (part : Nat × Shard × ShardRequest), parts[k]? = some part →
        part.1 = first + k) →
      (scoreParts settings global parts).Yields (after, candidates) →
      (∀ c ∈ candidates, first ≤ c.shard ∧ c.logs = {}) ∧
      ∀ (k : Nat) (part' : Nat × Shard × ShardRequest), after[k]? = some part' →
        ∃ part hits, parts[k]? = some part ∧
          part'.1 = part.1 ∧ part'.2.1 = part.2.1 ∧
          (part.2.2.score ⟨part.2.1, global⟩ (settings.under part.1)).Yields (part'.2.2, hits) ∧
          candidates.filter (·.shard == part.1) = hitsOf part.1 part.2.1 hits := by
  induction parts with
  | nil =>
      intro first after candidates _ h
      obtain ⟨hafter, hcandidates⟩ := Prod.mk.inj (yields_pure h)
      rw [← hafter, ← hcandidates]
      exact ⟨fun _ hc => (nomatch hc), fun _ _ hk => nomatch hk⟩
  | cons part rest ih =>
      intro first after candidates hplaces h
      obtain ⟨place, shard, r⟩ := part
      unfold scoreParts at h
      obtain ⟨⟨r', hits⟩, hscore, h⟩ := yields_bind h
      obtain ⟨⟨rest', others⟩, hrest, h⟩ := yields_bind h
      obtain ⟨hafter, hcandidates⟩ := Prod.mk.inj (yields_pure h)
      have hplace : place = first := hplaces 0 _ rfl
      obtain ⟨hbelow, hparts⟩ := @ih (first + 1) _ _ (by
        intro k part hk
        have := hplaces (k + 1) part hk
        omega) hrest
      rw [← hafter, ← hcandidates]
      refine ⟨?_, ?_⟩
      · intro c hc
        rcases List.mem_append.mp hc with hc | hc
        · obtain ⟨hshard, hlogs⟩ := shard_hitsOf hc
          exact ⟨by omega, hlogs⟩
        · exact ⟨Nat.le_of_succ_le (hbelow c hc).1, (hbelow c hc).2⟩
      · intro k part' hk
        cases k with
        | zero =>
            rw [← Option.some.inj hk]
            refine ⟨_, hits, rfl, rfl, rfl, hscore, ?_⟩
            -- the shards after this one are at other places
            have hthere : others.filter (·.shard == place) = [] := by
              refine List.filter_eq_nil_iff.mpr fun c hc heq => ?_
              have := (hbelow c hc).1
              have := beq_iff_eq.mp heq
              omega
            rw [List.filter_append, filter_hitsOf, if_pos rfl, hthere, List.append_nil]
        | succ k =>
            obtain ⟨part, hits', hpart, hsame, hshard, hscore', hfilter⟩ := hparts k part' hk
            refine ⟨part, hits', hpart, hsame, hshard, hscore', ?_⟩
            have hlater : part.1 = first + (k + 1) := hplaces (k + 1) part hpart
            rw [List.filter_append, filter_hitsOf, if_neg (by omega), hfilter, List.nil_append]

/-- **Where a scored part is from**: the request taken apart for a shard of the engine,
    whose hits are the candidates at its place. -/
theorem scored_part {e : Engine} {request : SearchRequest} {parts after : Parts}
    {candidates : List SearchHit} {global : Option GlobalStatistics}
    (hparts : (e.parts request).Yields parts)
    (hscored : (scoreParts e.settings global parts).Yields (after, candidates))
    {part : Nat × Shard × ShardRequest} (hpart : part ∈ after) :
    ∃ r hits, (part.1, part.2.1, r) ∈ parts ∧ part.2.1 ∈ e.shards ∧
      (ShardRequest.ofRequest e.dictionary e.settings request).Yields r ∧
      (r.score ⟨part.2.1, global⟩ (e.settings.under part.1)).Yields (part.2.2, hits) ∧
      candidates.filter (·.shard == part.1) = hitsOf part.1 part.2.1 hits := by
  have hplaces : ∀ (k : Nat) (part : Nat × Shard × ShardRequest), parts[k]? = some part →
      part.1 = 0 + k := by
    intro k part hk
    rw [(parts_yields hparts hk).1, Nat.zero_add]
  obtain ⟨k, hk⟩ := List.mem_iff_getElem?.mp hpart
  obtain ⟨⟨place, shard, r⟩, hits, hbefore, hplace, hshard, hscore, hfilter⟩ :=
    (scoreParts_yields hplaces hscored).2 k part hk
  obtain ⟨-, hmember, hr⟩ := parts_yields hparts hbefore
  rw [hplace, hshard]
  exact ⟨r, hits, List.mem_of_getElem? hbefore, hmember, hr, hscore, hfilter⟩

/-- **Scoring all parts matches** where scoring them one by one does: for the same hits
    at every place, and parts as they are related after they were scored. -/
theorem scoreParts_matches {settings : Settings} {global : Option GlobalStatistics}
    {R S : Nat × Shard × ShardRequest → Nat × Shard × ShardRequest → Prop}
    (hscore : ∀ part part', R part part' →
      Matches (fun x y => S (part.1, part.2.1, x.1) (part'.1, part'.2.1, y.1) ∧
          hitsOf part.1 part.2.1 x.2 = hitsOf part'.1 part'.2.1 y.2)
        (part.2.2.score ⟨part.2.1, global⟩ (settings.under part.1))
        (part'.2.2.score ⟨part'.2.1, global⟩ (settings.under part'.1)))
    {parts parts' : Parts} (h : List.Forall₂ R parts parts') :
    Matches (fun x y => List.Forall₂ S x.1 y.1 ∧ x.2 = y.2)
      (scoreParts settings global parts) (scoreParts settings global parts') := by
  induction h with
  | nil => exact .pure ⟨.nil, rfl⟩
  | cons hpart _ ih =>
      rw [scoreParts, scoreParts]
      refine (hscore _ _ hpart).bind fun x y hfirst _ _ => ?_
      refine ih.bind fun others others' hothers _ _ => ?_
      exact .pure ⟨.cons hfirst.1 hothers.1, by rw [hfirst.2, hothers.2]⟩

/-! ## Fetching -/

/-- Explaining changes nothing else of the hits. -/
theorem explained_yields {searcher : Searcher} {settings : Settings} {r : ShardRequest}
    {hits shown : List SearchHit}
    (h : Tracked.Yields (hits.mapM fun hit : SearchHit => do
      return { hit with explanation := some (← r.explain searcher settings hit.doc) }) shown) :
    List.Forall₂ (fun hit s => s = { hit with explanation := s.explanation }) hits shown := by
  refine (yields_mapM h).imp fun hit s hs => ?_
  obtain ⟨explanation, -, heq⟩ := yields_bind hs
  rw [← yields_pure heq]

/-- Explaining changes the number of no hit. -/
theorem explained_docs {searcher : Searcher} {settings : Settings} {r : ShardRequest}
    {hits shown : List SearchHit}
    (h : Tracked.Yields (hits.mapM fun hit : SearchHit => do
      return { hit with explanation := some (← r.explain searcher settings hit.doc) }) shown) :
    hits.map (·.doc) = shown.map (·.doc) :=
  map_eq_of_forall₂ ((explained_yields h).imp fun _ _ hs => (congrArg SearchHit.doc hs).symm)

/-- Fetching with explanations changes nothing else of a hit before it is logged. -/
theorem fetch_yields {settings : Settings} {global : Option GlobalStatistics} {explain : Bool}
    {shard : Shard} {r : ShardRequest} {hits hits' : List SearchHit}
    (h : (fetch settings global explain shard r hits).Yields hits') :
    ∃ shown, (r.log { shard } settings shown).Yields hits' ∧ List.Forall₂
      (fun hit s => s = { hit with explanation := s.explanation }) hits shown := by
  unfold fetch at h
  cases explain with
  | false =>
      obtain ⟨shown, hshown, h⟩ := yields_bind h
      rw [← yields_pure hshown] at h
      exact ⟨hits, h, List.forall₂_same.mpr fun _ _ => rfl⟩
  | true =>
      obtain ⟨shown, hshown, h⟩ := yields_bind h
      exact ⟨shown, h, explained_yields hshown⟩

/-- The best hits of a shard with explanations and logs, for each shard. -/
def fetchParts (e : Engine) (request : SearchRequest) (parts after : Parts)
    (candidates : List SearchHit) : Tracked (List (List SearchHit)) :=
  after.mapM fun part =>
    fetch e.settings (e.globalOf request parts) request.explain part.2.1 part.2.2
      (((SearchHit.sort candidates).take request.size).filter (·.shard == part.1))

/-- A response is the scoring of all shards and then the fetching of the best hits. -/
theorem response_eq (e : Engine) (request : SearchRequest) :
    e.response request = e.scored request >>= fun found =>
      e.fetchParts request found.1 found.2.1 found.2.2 >>= fun fetched =>
        pure ⟨found.2.2.length, SearchHit.sort fetched.flatten⟩ := by
  simp only [Engine.response, scored, bind_assoc, pure_bind]
  rfl

/-- A search whose shards were scored and whose best hits were fetched has a
    response. -/
theorem search_ok {e : Engine} {request : SearchRequest} {parts after : Parts}
    {candidates : List SearchHit} {fetched : List (List SearchHit)} {between last : Counters}
    (hscored : (ExceptT.run (e.scored request)).run e.counters
      = (.ok (parts, after, candidates), between))
    (hfetched : (ExceptT.run (e.fetchParts request parts after candidates)).run between
      = (.ok fetched, last)) :
    (e.search request).2 = .ok ⟨candidates.length, SearchHit.sort fetched.flatten⟩ := by
  have hresponse : (ExceptT.run (e.response request)).run e.counters
      = (.ok ⟨candidates.length, SearchHit.sort fetched.flatten⟩, last) := by
    rw [response_eq, run_bind_of_run hscored, run_bind_of_run hfetched]
    rfl
  exact congrArg Prod.fst hresponse

/-- A search is the scoring of all shards and then the fetching of the best hits. -/
theorem search_eq_ok {e : Engine} {request : SearchRequest} {response : SearchResponse}
    (h : (e.search request).2 = .ok response) {parts after : Parts} {candidates : List SearchHit}
    (hscored : (e.track (e.scored request)).2 = .ok (parts, after, candidates)) :
    (e.parts request).Yields parts ∧
      (scoreParts e.settings (e.globalOf request parts) parts).Yields (after, candidates) ∧
      ∃ fetched, List.Forall₂ (fun part hits =>
          (fetch e.settings (e.globalOf request parts) request.explain part.2.1 part.2.2
            (((SearchHit.sort candidates).take request.size).filter (·.shard == part.1))).Yields hits)
          after fetched ∧
        response.hits = SearchHit.sort fetched.flatten := by
  unfold search at h
  rw [response_eq] at h
  obtain ⟨last, hrun⟩ := track_eq_ok h
  obtain ⟨found, between, hfound, hfetch⟩ := run_bind hrun
  obtain ⟨last', hscored⟩ := track_eq_ok hscored
  rw [hscored] at hfound
  rw [← Except.ok.inj (Prod.mk.inj hfound).1] at hfetch
  obtain ⟨fetched, hfetched, heq⟩ := yields_bind ⟨between, last, hfetch⟩
  have hyields : (e.scored request).Yields (parts, after, candidates) := ⟨_, _, hscored⟩
  obtain ⟨hparts, hafter⟩ := scored_yields hyields
  refine ⟨hparts, hafter, fetched, yields_mapM hfetched, ?_⟩
  rw [← yields_pure heq]

/-! ## Hits -/

/-- The best hits of a shard are some of its hits, each once. -/
theorem best_subperm {candidates : List SearchHit} {place : Nat} {shard : Shard}
    {hits : List ShardHit}
    (hfilter : candidates.filter (·.shard == place) = hitsOf place shard hits) (size : Nat) :
    ((((SearchHit.sort candidates).take size).filter (·.shard == place)).map (·.doc)).Subperm
      (hits.map (·.doc)) := by
  have hback : (hitsOf place shard hits).map (·.doc) = hits.map (·.doc) := by
    unfold hitsOf
    rw [List.map_map]
    rfl
  have hsub : ((((SearchHit.sort candidates).take size).filter (·.shard == place)).map (·.doc)).Sublist
      (((SearchHit.sort candidates).filter (·.shard == place)).map (·.doc)) :=
    ((List.take_sublist size (SearchHit.sort candidates)).filter (·.shard == place)).map (·.doc)
  have hperm : (((SearchHit.sort candidates).filter (·.shard == place)).map (·.doc)).Perm
      (hits.map (·.doc)) := by
    rw [← hback, ← hfilter]
    exact ((List.mergeSort_perm candidates SearchHit.isBefore).filter (·.shard == place)).map
      (·.doc)
  exact hsub.subperm.trans hperm.subperm

theorem nodup_of_subperm {some' all : List Nat} (h : some'.Subperm all) (hall : all.Nodup) :
    some'.Nodup := by
  obtain ⟨ordered, hperm, hsub⟩ := h
  exact hperm.nodup_iff.mp (hall.sublist hsub)

/-- How a hit of a response came about on its shard: the request was taken apart,
    the shard was scored and the hit was one of its hits, and its logs are those of
    the recorders for the fetched documents. -/
structure Traced (e : Engine) (request : SearchRequest) (searcher : Searcher)
    (r r' : ShardRequest) (hit : SearchHit) : Prop where
  built : searcher.shard.Built
  part : (ShardRequest.ofRequest e.dictionary e.settings request).Yields r
  scored : ∃ hits, (r.score searcher (e.settings.under hit.shard)).Yields (r', hits) ∧
    hit.doc ∈ hits.map (·.doc)
  logged : r'.loggers ≠ [] → ∃ docs j recorders, docs.Nodup ∧ docs[j]? = some hit.doc ∧
    (r'.recorders { shard := searcher.shard } e.settings docs).Yields recorders ∧
    ∀ (name : String) (log : List LogEntry),
      (hit.logs[name]? = some log →
        ∃ finished, (name, finished) ∈ recorders ∧ (j, log) ∈ finished.take.1) ∧
      ((∃ finished, (name, finished) ∈ recorders ∧ (j, log) ∈ finished.take.1) →
        (hit.logs[name]?).isSome = true)

/-- **Every hit of a response was scored and logged on its shard**, by the part of
    the request for that shard. -/
theorem search_hit {e : Engine} (hbuilt : e.Built) {request : SearchRequest}
    (haccepted : request.Accepted) {response : SearchResponse}
    (hsearch : (e.search request).2 = .ok response) {parts after : Parts}
    {candidates : List SearchHit}
    (hscored : (e.track (e.scored request)).2 = .ok (parts, after, candidates)) {hit : SearchHit}
    (hhit : hit ∈ response.hits) :
    ∃ shard r r', parts[hit.shard]? = some (hit.shard, shard, r) ∧
      after[hit.shard]? = some (hit.shard, shard, r') ∧
      Traced e request ⟨shard, e.globalOf request parts⟩ r r' hit := by
  obtain ⟨hparts, hscores, fetched, hfetched, hhits⟩ := search_eq_ok hsearch hscored
  have hplaces : ∀ (k : Nat) (part : Nat × Shard × ShardRequest), parts[k]? = some part →
      part.1 = 0 + k := by
    intro k part hk
    rw [(parts_yields hparts hk).1, Nat.zero_add]
  obtain ⟨hfresh, hafter⟩ := scoreParts_yields hplaces hscores
  -- the list that the hit is in, and the part that it is from
  rw [hhits] at hhit
  obtain ⟨hits', hmem, hin⟩ := List.mem_flatten.mp
    ((List.mergeSort_perm fetched.flatten SearchHit.isBefore).mem_iff.mp hhit)
  obtain ⟨i, hi⟩ := List.mem_iff_getElem?.mp hmem
  obtain ⟨k, hk⟩ := List.mem_iff_getElem?.mp hin
  obtain ⟨part', hpart', hfetch⟩ := forall₂_getElem? hfetched.flip hi
  obtain ⟨⟨place, shard, r⟩, hits, hpart, hplace, hshard, hscore, hfilter⟩ := hafter i part' hpart'
  obtain ⟨place', shard', r'⟩ := part'
  obtain ⟨hi', hmember, hrequest⟩ := parts_yields hparts hpart
  have hplace : place' = place := hplace
  have hshard : shard' = shard := hshard
  have hi' : place = i := hi'
  subst hplace hshard hi'
  obtain ⟨shown, hlog, hshown⟩ := fetch_yields hfetch
  obtain ⟨before, hbefore, hsame, hlogged⟩ := ShardRequest.log_yields hlog hk
  -- the hits that were fetched are hits of the shard
  have hdocs : shown.map (·.doc) = (((SearchHit.sort candidates).take request.size).filter
      (·.shard == place')).map (·.doc) :=
    map_eq_of_forall₂ (hshown.flip.imp fun s a hs => show s.doc = a.doc by rw [hs])
  have hbest := best_subperm hfilter request.size
  rw [← hdocs] at hbest
  obtain ⟨h₀, hh₀, hbefore'⟩ := forall₂_getElem? hshown.flip hbefore
  have hcandidate := List.mem_filter.mp (List.mem_iff_getElem?.mpr ⟨k, hh₀⟩)
  have hsource : h₀ ∈ candidates := (List.mergeSort_perm candidates SearchHit.isBefore).mem_iff.mp
    (List.mem_of_mem_take hcandidate.1)
  have hhere : hit.shard = place' := by
    rw [hsame, hbefore']
    exact beq_iff_eq.mp hcandidate.2
  have hdoc : (shown.map (·.doc))[k]? = some hit.doc := by
    rw [List.getElem?_map, hbefore, hsame]
    rfl
  have hempty : before.logs = {} := by
    rw [hbefore']
    exact (hfresh h₀ hsource).2
  rw [hhere]
  refine ⟨shard', r, r', hpart, hpart', hbuilt shard' hmember, hrequest,
    ⟨hits, by rw [hhere]; exact hscore, ?_⟩, ?_⟩
  · exact hbest.subset (List.mem_iff_getElem?.mpr ⟨k, hdoc⟩)
  · intro hloggers
    obtain ⟨recorders, hrecorders, hgains⟩ := hlogged hloggers
    refine ⟨shown.map (·.doc), k, recorders, ?_, hdoc, hrecorders, ?_⟩
    · obtain ⟨-, hnodup, -⟩ := ShardRequest.score_yields (hbuilt shard' hmember)
        (ShardRequest.ofRequest_fresh haccepted hrequest) hscore
      exact nodup_of_subperm hbest hnodup
    · intro name log
      refine ⟨fun hget => (hgains.fromSource name log hget).resolve_left ?_, hgains.gained name log⟩
      intro hold
      rw [hempty] at hold
      exact nomatch Std.TreeMap.getElem?_emptyc.symm.trans hold

end Engine

end FeatureRank
