import FeatureRank.Proofs.Search.Best
import FeatureRank.Proofs.Search.Reports

/-! # Fetching never fails

    Once a shard is scored, all its queries have their weights in their caches, and the
    merged cache of the logs has those of every logged query (`ShardRequest.Ready`).  So
    its hits can be explained and logged, whichever way their logs are written and
    however few of them a rescore stage scored (`ShardRequest.Ready.fetch_ok`).

    A search therefore ends as the scoring of its shards does, and its hits are the best
    candidates, whatever else was asked of them (`Engine.search_ends`). -/

namespace FeatureRank

open Tracked

/-- Values of features are accepted while a log is open. -/
theorem LogRecorder.acceptAll_ok (values : List (Nat × Float32)) :
    ∀ {r : LogRecorder}, r.current.isSome = true → (∀ x ∈ values, x.1 < r.featureCount) →
      ∃ r', r.acceptAll values = .ok r' := by
  induction values with
  | nil => exact fun _ _ => ⟨_, rfl⟩
  | cons first rest ih =>
      intro r hopen hin
      obtain ⟨hfirst, hrest⟩ := List.forall_mem_cons.mp hin
      obtain ⟨log, hlog⟩ := Option.isSome_iff_exists.mp hopen
      let next : LogRecorder := { r with
        current := some { log with values := log.values.set first.1 (some first.2) } }
      have haccept : r.accept first.1 first.2 = .ok next := by
        simp only [accept, hlog, hfirst, if_true]
        rfl
      have hnext : next.current.isSome = true := rfl
      obtain ⟨r', hr'⟩ := ih hnext hrest
      exact ⟨r', bind_eq_ok.mpr ⟨next, haccept, hr'⟩⟩

namespace ShardRequest

variable {docs : List IndexedDocument} {s : Shard} {global : Option GlobalStatistics}
  {settings : Settings} {numbers : List Nat} {weights : WeightCache} {r : ShardRequest}

/-! ## Logs -/

theorem replayDoc_ok (scores : Option ScoreCache) (recorder : LogRecorder) (item : Nat × Nat) :
    ∃ next, replayDoc scores recorder item = .ok next := by
  cases hkept : scores.bind (·.get? item.1) with
  | none => exact ⟨recorder, by simp only [replayDoc, hkept]⟩
  | some kept =>
      have hin : ∀ x ∈ keptMatches recorder.featureCount kept,
          x.1 < (recorder.nextDoc item.2).featureCount := by
        -- of what is kept, no more is replayed than the recorder has features
        intro x hx
        obtain ⟨⟨score, ordinal⟩, hmem, hx⟩ := List.mem_filterMap.mp hx
        obtain rfl := Option.some.inj (Option.ite_none_left_eq_some.mp hx).2
        have hplace := (List.getElem?_eq_some_iff.mp (List.mem_zipIdx_iff_getElem?.mp hmem)).1
        have hcount : (recorder.nextDoc item.2).featureCount = recorder.featureCount :=
          congrArg List.length recorder.features_close
        rw [hcount]
        exact Nat.lt_of_lt_of_le hplace (List.length_take_le _ _)
      obtain ⟨next, hnext⟩ := LogRecorder.acceptAll_ok _ rfl hin
      exact ⟨next, by simp only [replayDoc, hkept, hnext]⟩

/-- **A replay never fails**, whatever was kept for the documents. -/
theorem replayLogs_ok (scores : Option ScoreCache) (recorder : LogRecorder) (numbers : List Nat) :
    ∃ finished, replayLogs recorder scores numbers = .ok finished :=
  foldlM_ok (replayDoc_ok scores) numbers.zipIdx recorder

/-- **Logs by scoring again never fail** where the weights of every logged query are
    there. -/
theorem rescoreLogs_ok (hs : s.Holds docs) (hnumbers : numbers.Nodup) (loggers : List Logger) :
    ∀ {r : ShardRequest}, r.Fits →
      (∀ logger ∈ loggers, ∀ q, r.queryOf? logger.target = some q →
        settings.enabled = true ∧ Covers weights (Searcher.isEmpty { shard := s }) q) →
      ∃ recorders, (rescoreLogs { shard := s } settings numbers loggers weights r).Ends
        (.ok recorders) := by
  induction loggers with
  | nil => exact fun _ _ => ⟨[], .pure []⟩
  | cons first rest ih =>
      intro r hr hcovers
      obtain ⟨hfirst, hrest⟩ := List.forall_mem_cons.mp hcovers
      cases hfound : r.found? first with
      | none =>
          have hnone : (r.slotOf? first.target).bind
              (fun slot => slot.query.ranking?.map ((slot, ·))) = none := hfound
          rw [rescoreLogs, hnone]
          exact ih hr hrest
      | some found =>
          obtain ⟨slot, q⟩ := found
          obtain ⟨hslot, hq⟩ := found?_eq_some hfound
          obtain ⟨henabled, ws, hholds⟩ :=
            hfirst q (Option.bind_eq_some_iff.mpr ⟨slot, hslot, hq⟩)
          obtain ⟨kept, finished, hlogs, hafter, -, -⟩ :=
            rescoreLogs_cons_eq hs henabled hnumbers hr hfound hholds rest
          -- the log changes what is kept of the documents, but no query
          obtain ⟨recorders, hends⟩ := ih hafter fun logger hlogger q hquery =>
            hrest logger hlogger q (by rwa [queryOf?_afterLog] at hquery)
          rw [hlogs]
          exact ⟨_, hends.bind (.pure _)⟩

/-! ## Scored requests -/

/-- A request on a shard whose hits can be explained and logged: its slots fit, its
    queries have their weights in their caches, and the logged ones in the merged cache. -/
structure Ready (r : ShardRequest) (searcher : Searcher) (settings : Settings) : Prop where
  fits : r.Fits
  weights : ∀ slot ∈ r.queries, ∃ w, slot.query.weight searcher settings.enabled .scores
    slot.weights = (slot.weights, .ok w) ∧ w.Fits none
  logged : ∀ logger ∈ r.loggers, ∀ q, r.queryOf? logger.target = some q →
    settings.enabled = true ∧ Covers r.mergedWeights searcher.isEmpty q

/-- Whether a request is ready has nothing to do with NaN. -/
theorem Ready.of_under {searcher : Searcher} {part : Nat}
    (h : r.Ready searcher (settings.under part)) : r.Ready searcher settings :=
  ⟨h.fits, h.weights, h.logged⟩

/-- **A request that was scored on a shard is ready.** -/
theorem ready_of_score (hs : s.Built) (hfresh : r.Fresh) (hr : r.Fits) {r' : ShardRequest}
    {hits : List ShardHit} (h : (r.score ⟨s, global⟩ settings).Yields (r', hits)) :
    r'.Ready ⟨s, global⟩ settings := by
  obtain ⟨docs, hholds⟩ := hs.holds
  obtain ⟨-, -, -, hpasses, hranked⟩ := score_yields hs hfresh h
  have hranked' : ∀ target after q, r'.slotOf? target = some after →
      after.query.ranking? = some q →
      q.Accepted ∧ ∃ slot w, Ranked r ⟨s, global⟩ settings target slot after q w := by
    intro target after q hafter hq
    obtain ⟨slot, w, hslot, hdone⟩ := hranked target after q hafter hq
    rw [hdone.query] at hq
    exact ⟨(hfresh target slot hslot).accepted q hq, slot, w, hdone⟩
  constructor
  · exact (score_fits hholds hr h).1
  -- a query that was scored finds its weights again, and asks for no more of them
  · intro after hafter
    obtain ⟨slot, hslot, scores, w, kept, made, hweight, -, rfl⟩ := forall₂_mem hpasses.flip hafter
    exact ⟨w, Query.weight_again hweight,
      ((Query.Fits.weight_iff (hr.queries slot hslot) hweight _).mpr
        (hr.queries slot hslot)).withoutScores⟩
  · intro logger hlogger q hquery
    obtain ⟨after, hafter, hq⟩ := Option.bind_eq_some_iff.mp hquery
    obtain ⟨-, slot, w, hdone⟩ := hranked' logger.target after q hafter hq
    exact ⟨hdone.enabled, (mergedWeights_ranked hranked').2 logger hlogger q hquery⟩

/-- **Every hit can be explained.** -/
theorem Ready.explain_ok (h : r.Ready ⟨s, global⟩ settings) (hs : s.Holds docs) (n : Nat) :
    ∃ explanation, (r.explain ⟨s, global⟩ settings n).Ends (.ok explanation) := by
  cases hn : Shard.termsAt docs n with
  | none =>
      rw [ShardRequest.explain]
      simp only [hs.locate?_of_none hn]
      exact ⟨_, .pure _⟩
  | some doc =>
      obtain ⟨weights, hweights⟩ := exists_forall₂ h.weights
      exact ⟨_, explain_ends hs hn hweights⟩

/-- **Every hit can be logged.** -/
theorem Ready.log_ok (h : r.Ready ⟨s, global⟩ settings) (hs : s.Holds docs)
    {hits : List SearchHit} (hhits : (hits.map (·.doc)).Nodup) :
    ∃ logged, (r.log { shard := s } settings hits).Ends (.ok logged) := by
  have hrecorders : ∃ recorders, (r.recorders { shard := s } settings (hits.map (·.doc))).Ends
      (.ok recorders) := by
    rw [recorders]
    split
    · refine Ends.mapM_mem ?_
      rintro ⟨logger, slot, q⟩ -
      obtain ⟨finished, hfinished⟩ :=
        replayLogs_ok slot.scores (recorder logger q) (hits.map (·.doc))
      show ∃ a, (Tracked.ofChecked (replayLogs _ _ _) >>= _).Ends (.ok a)
      rw [hfinished]
      exact ⟨(logger.name, finished), .pure _⟩
    · exact rescoreLogs_ok hs hhits r.loggers h.fits h.logged
  obtain ⟨recorders, hrecorders⟩ := hrecorders
  rw [log]
  split
  · exact ⟨hits, .pure hits⟩
  · exact ⟨_, hrecorders.bind (.pure _)⟩

/-- **Fetching never fails**, whatever is asked of the hits. -/
theorem Ready.fetch_ok (h : r.Ready ⟨s, global⟩ settings) (hs : s.Holds docs) (explain : Bool)
    {hits : List SearchHit} (hhits : (hits.map (·.doc)).Nodup) :
    ∃ fetched, (Engine.fetch settings global explain s r hits).Ends (.ok fetched) := by
  cases explain with
  | false => exact h.log_ok hs hhits
  | true =>
      have hexplain : ∀ hit ∈ hits, ∃ shown : SearchHit, Tracked.Ends (do
          return { hit with explanation := some (← r.explain ⟨s, global⟩ settings hit.doc) })
          (.ok shown) := by
        intro hit _
        obtain ⟨explanation, hends⟩ := h.explain_ok hs hit.doc
        exact ⟨_, hends.bind (.pure _)⟩
      obtain ⟨shown, hshown⟩ := Ends.mapM_mem hexplain
      rw [Engine.explained_docs hshown.yields] at hhits
      obtain ⟨fetched, hfetched⟩ := h.log_ok hs hhits
      exact ⟨fetched, hshown.bind hfetched⟩

end ShardRequest

namespace Engine

/-- The best hits of a scored part can be fetched. -/
theorem fetchParts_ok {e : Engine} (hbuilt : e.Built) {request : SearchRequest}
    (hrequest : request.Accepted) {parts after : Parts} {candidates : List SearchHit}
    (hparts : (e.parts request).Yields parts)
    (hscored : (scoreParts e.settings (e.globalOf request parts) parts).Yields (after, candidates)) :
    ∃ fetched, (e.fetchParts request parts after candidates).Ends (.ok fetched) := by
  refine Ends.mapM_mem fun part hpart => ?_
  obtain ⟨r, hits, -, hmember, hr, hscore, hfilter⟩ := scored_part hparts hscored hpart
  have hshard := hbuilt part.2.1 hmember
  have hfresh := ShardRequest.ofRequest_fresh hrequest hr
  have hready := ShardRequest.ready_of_score hshard hfresh
    (ShardRequest.ofRequest_fits hrequest hr) hscore
  obtain ⟨docs, hholds⟩ := hshard.holds
  -- the best hits of the shard are some of its hits, each once
  obtain ⟨-, hnodup, -⟩ := ShardRequest.score_yields hshard hfresh hscore
  exact hready.of_under.fetch_ok hholds request.explain
    (nodup_of_subperm (best_subperm hfilter request.size) hnodup)

/-- **A search ends as the scoring of its shards does**: with the same failure, or with
    the number of the candidates and the best of them. -/
theorem search_ends {e : Engine} (hbuilt : e.Built) {request : SearchRequest}
    (hrequest : request.Accepted) :
    EndAlike (fun found response => response.total = found.2.2.length ∧
        response.hits.map SearchHit.bare = (SearchHit.sort found.2.2).take request.size)
      (e.track (e.scored request)).2 (e.search request).2 := by
  show EndAlike _ ((ExceptT.run (e.scored request)).run e.counters).1
    ((ExceptT.run (e.response request)).run e.counters).1
  rw [response_eq]
  cases hrun : (ExceptT.run (e.scored request)).run e.counters with
  | mk outcome between =>
      cases outcome with
      | error failure =>
          rw [run_bind_of_error hrun]
          exact .error failure
      | ok found =>
          obtain ⟨parts, after, candidates⟩ := found
          have hyields : (e.scored request).Yields (parts, after, candidates) := ⟨_, _, hrun⟩
          obtain ⟨hparts, hscored⟩ := scored_yields hyields
          obtain ⟨fetched, hfetched⟩ := fetchParts_ok hbuilt hrequest hparts hscored
          have hends := hfetched.bind (f := fun fetched =>
            pure (⟨candidates.length, SearchHit.sort fetched.flatten⟩ : SearchResponse)) (.pure _)
          rw [run_bind_of_run hrun, hends between]
          exact .ok ⟨rfl, response_best hparts hscored (yields_mapM hfetched.yields)
            (candidates_nodup hbuilt hrequest hparts hscored)⟩

end Engine

end FeatureRank
