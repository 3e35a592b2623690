import FeatureRank.Proofs.Log.Recorder
import FeatureRank.Proofs.Search.Scoring

/-! # Logging the hits of a shard

    A log of a hit comes from a recorder under the name of its logger, and no log
    of a recorder is lost (`SearchHit.Gains`).

    The recorder of a logger either replays the kept scores of the ranking query,
    and then has for each document the values that were kept as numbers
    (`ShardRequest.replayLogs_take`), or scores the documents again by the weights
    that ranking made, and then has the vector that the definition gives for a
    ranker without defaults (`ShardRequest.Rescored.logs`). -/

namespace FeatureRank

open Tracked

/-! ## Logs of a hit -/

namespace SearchHit

/-- A hit that got logs: each log of it was there or is from a source, and there is
    a log for each source. -/
structure Gains (source : String → List LogEntry → Prop) (before after : SearchHit) : Prop where
  same : after = { before with logs := after.logs }
  fromSource : ∀ (name : String) (log : List LogEntry), after.logs[name]? = some log →
    before.logs[name]? = some log ∨ source name log
  kept : ∀ name : String, (before.logs[name]?).isSome = true → (after.logs[name]?).isSome = true
  gained : ∀ (name : String) (log : List LogEntry), source name log → (after.logs[name]?).isSome = true

namespace Gains

/-- A hit without sources is as it was. -/
theorem refl {source : String → List LogEntry → Prop} (h : SearchHit)
    (hnone : ∀ name log, ¬source name log) : Gains source h h :=
  ⟨rfl, fun _ _ hlog => Or.inl hlog, fun _ hsome => hsome,
    fun name log hsource => absurd hsource (hnone name log)⟩

/-- Logs of some sources and then of others. -/
theorem trans {first second source : String → List LogEntry → Prop} {a b c : SearchHit}
    (hab : Gains first a b) (hbc : Gains second b c)
    (hsource : ∀ name log, source name log ↔ first name log ∨ second name log) :
    Gains source a c where
  same := by
    rw [hbc.same, hab.same]
  fromSource := by
    intro name log hlog
    rcases hbc.fromSource name log hlog with hold | hnew
    · rcases hab.fromSource name log hold with hold | hnew
      · exact Or.inl hold
      · exact Or.inr ((hsource name log).mpr (Or.inl hnew))
    · exact Or.inr ((hsource name log).mpr (Or.inr hnew))
  kept name hsome := hbc.kept name (hab.kept name hsome)
  gained := by
    intro name log h
    rcases (hsource name log).mp h with hfirst | hsecond
    · exact hbc.kept name (hab.gained name log hfirst)
    · exact hbc.gained name log hsecond

/-- One log put in. -/
theorem insert (h : SearchHit) (name : String) (log : List LogEntry) :
    Gains (fun n l => n = name ∧ l = log) h { h with logs := h.logs.insert name log } where
  same := rfl
  fromSource := by
    intro n l hlog
    rw [Std.TreeMap.getElem?_insert] at hlog
    by_cases hn : name = n
    · rw [if_pos (by rw [hn]; exact Std.ReflCmp.compare_self)] at hlog
      exact Or.inr ⟨hn.symm, (Option.some.inj hlog).symm⟩
    · rw [if_neg (fun h => hn (Std.LawfulEqOrd.eq_of_compare h))] at hlog
      exact Or.inl hlog
  kept := by
    intro n hsome
    rw [Std.TreeMap.getElem?_insert]
    split
    · rfl
    · exact hsome
  gained := by
    rintro n l ⟨hn, -⟩
    rw [hn, Std.TreeMap.getElem?_insert_self]
    rfl

end Gains

end SearchHit

namespace ShardRequest

/-- Attaching logs under a name gives each hit its own. -/
theorem attach_hit (name : String) (logs : List (Nat × List LogEntry)) (k : Nat) :
    ∀ {hits : List SearchHit} {after : SearchHit}, (attach name logs hits)[k]? = some after →
      ∃ before, hits[k]? = some before ∧
        SearchHit.Gains (fun n log => n = name ∧ (k, log) ∈ logs) before after := by
  induction logs with
  | nil =>
      intro hits after h
      exact ⟨after, h, SearchHit.Gains.refl after fun _ _ hin => nomatch hin.2⟩
  | cons first rest ih =>
      intro hits after h
      obtain ⟨between, hbetween, hgains⟩ := ih h
      rw [List.getElem?_modify] at hbetween
      obtain ⟨before, hbefore, heq⟩ := Option.map_eq_some_iff.mp hbetween
      refine ⟨before, hbefore, ?_⟩
      by_cases hhit : first.1 = k
      · rw [if_pos hhit] at heq
        rw [← heq] at hgains
        refine (SearchHit.Gains.insert before name first.2).trans hgains ?_
        intro n log
        rw [List.mem_cons, ← and_or_left]
        refine and_congr_right fun _ => or_congr_left ?_
        constructor
        · intro hpair
          rw [← hpair]
        · intro hlog
          rw [hlog, ← hhit]
      · rw [if_neg hhit] at heq
        rw [← heq] at hgains
        have hstill : SearchHit.Gains (fun _ _ => False) before before :=
          SearchHit.Gains.refl before fun _ _ h => h
        refine hstill.trans hgains ?_
        intro n log
        rw [List.mem_cons, false_or]
        refine and_congr_right fun _ => or_iff_right ?_
        intro hpair
        exact hhit (Prod.mk.inj hpair).1.symm

/-- The logs of all recorders. -/
theorem attachAll_hit (recorders : List (String × LogRecorder)) (k : Nat) :
    ∀ {hits : List SearchHit} {after : SearchHit},
      (recorders.foldl (fun hits (name, recorder) => attach name recorder.take.1 hits) hits)[k]?
        = some after →
      ∃ before, hits[k]? = some before ∧ SearchHit.Gains (fun name log =>
        ∃ finished, (name, finished) ∈ recorders ∧ (k, log) ∈ finished.take.1) before after := by
  induction recorders with
  | nil =>
      intro hits after h
      refine ⟨after, h, SearchHit.Gains.refl after ?_⟩
      rintro name log ⟨finished, hin, -⟩
      exact nomatch hin
  | cons first rest ih =>
      intro hits after h
      obtain ⟨between, hbetween, hgains⟩ := ih h
      obtain ⟨before, hbefore, hfirst⟩ := attach_hit first.1 first.2.take.1 k hbetween
      refine ⟨before, hbefore, hfirst.trans hgains ?_⟩
      intro name log
      constructor
      · rintro ⟨finished, hin, hlog⟩
        rcases List.mem_cons.mp hin with heq | hin
        · rw [← heq]
          exact Or.inl ⟨rfl, hlog⟩
        · exact Or.inr ⟨finished, hin, hlog⟩
      · rintro (⟨hname, hlog⟩ | ⟨finished, hin, hlog⟩)
        · rw [hname]
          exact ⟨first.2, List.mem_cons_self, hlog⟩
        · exact ⟨finished, List.mem_cons_of_mem _ hin, hlog⟩

/-- **Logging a shard** changes only the logs of its hits, which come from the
    recorders when there are loggers. -/
theorem log_yields {r : ShardRequest} {searcher : Searcher} {settings : Settings}
    {hits hits' : List SearchHit} (h : (r.log searcher settings hits).Yields hits') {k : Nat}
    {after : SearchHit} (hk : hits'[k]? = some after) :
    ∃ before, hits[k]? = some before ∧ after = { before with logs := after.logs } ∧
      (r.loggers ≠ [] → ∃ recorders,
        (r.recorders searcher settings (hits.map (·.doc))).Yields recorders ∧
        SearchHit.Gains (fun name log =>
          ∃ finished, (name, finished) ∈ recorders ∧ (k, log) ∈ finished.take.1) before after) := by
  unfold log at h
  by_cases hnone : (r.loggers.isEmpty || hits.isEmpty) = true
  · rw [if_pos hnone] at h
    rw [← yields_pure h] at hk
    refine ⟨after, hk, rfl, ?_⟩
    intro hloggers
    -- with loggers there was no hit
    rcases Bool.or_eq_true_iff.mp hnone with hl | hh
    · exact absurd (List.isEmpty_iff.mp hl) hloggers
    · rw [List.isEmpty_iff.mp hh] at hk
      exact nomatch hk
  · rw [if_neg hnone] at h
    obtain ⟨recorders, hrecorders, h⟩ := yields_bind h
    rw [← yields_pure h] at hk
    obtain ⟨before, hbefore, hgains⟩ := attachAll_hit recorders k hk
    exact ⟨before, hbefore, hgains.same, fun _ => ⟨recorders, hrecorders, hgains⟩⟩

/-! ## Replaying -/

/-- Kept scores as the values of features: none where a score is no number. -/
def keptValues (features : Nat) (scores : List Float32) : List (Option Float32) :=
  (scores.take features).map fun score => if score.isNaN then none else some score

theorem keptMatches_eq (features : Nat) (scores : List Float32) :
    keptMatches features scores = LogRecorder.pairs 0 (keptValues features scores) := by
  unfold keptMatches LogRecorder.pairs keptValues
  rw [List.zipIdx_map, List.filterMap_map]
  refine List.filterMap_congr fun x _ => ?_
  show (if x.1.isNaN then none else some (x.2, x.1))
    = (if x.1.isNaN then none else some x.1).map (x.2, ·)
  by_cases hnan : x.1.isNaN = true
  · rw [if_pos hnan, if_pos hnan]
    rfl
  · rw [if_neg hnan, if_neg hnan]
    rfl

theorem length_keptValues {features : Nat} {scores : List Float32} (h : scores.length = features) :
    (keptValues features scores).length = features := by
  unfold keptValues
  rw [List.length_map, List.length_take, h, Nat.min_self]

/-- What a replay does for the document of one hit. -/
def replayDoc (scores : Option ScoreCache) (recorder : LogRecorder) (item : Nat × Nat) :
    Checked LogRecorder :=
  match scores.bind (·.get? item.1) with
  | some kept => (recorder.nextDoc item.2).acceptAll (keptMatches recorder.featureCount kept)
  | none => .ok recorder

/-- What a replay adds for a document with kept scores. -/
theorem replayDoc_eq {scores : Option ScoreCache} {recorder : LogRecorder} {item : Nat × Nat}
    {kept : List Float32} (hget : scores.bind (·.get? item.1) = some kept)
    (hlength : kept.length = recorder.featureCount) :
    replayDoc scores recorder item
      = .ok (recorder.close.withOpen ⟨item.2, keptValues recorder.featureCount kept, none⟩) := by
  have hvalues := length_keptValues hlength
  have hcount : recorder.close.featureCount = recorder.featureCount :=
    congrArg List.length recorder.features_close
  have hopened : recorder.nextDoc item.2 = recorder.close.withOpen ⟨item.2,
      [] ++ List.replicate (keptValues recorder.featureCount kept).length none, none⟩ := by
    rw [hvalues]
    rfl
  unfold replayDoc
  simp only [hget]
  rw [hopened, keptMatches_eq]
  exact LogRecorder.acceptAll_pairs recorder.close item.2 none
    (keptValues recorder.featureCount kept) [] (by
      rw [List.length_nil, Nat.zero_add, hvalues, hcount])

/-- The log that a replay gives the document of one hit, if scores were kept for it. -/
def replayed (recorder : LogRecorder) (scores : Option ScoreCache) (item : Nat × Nat) :
    Option (Nat × List LogEntry) :=
  (scores.bind (·.get? item.1)).map fun kept =>
    (item.2, recorder.entries ⟨item.2, keptValues recorder.featureCount kept, none⟩)

/-- A replay adds one log for a document with kept scores, and none for any other. -/
theorem replayDoc_take {scores : Option ScoreCache} {recorder next : LogRecorder}
    {item : Nat × Nat}
    (hfull : ∀ doc kept, scores.bind (·.get? doc) = some kept → kept.length = recorder.featureCount)
    (h : replayDoc scores recorder item = .ok next) :
    next.featureCount = recorder.featureCount ∧ next.entries = recorder.entries ∧
      next.take.1 = recorder.take.1 ++ (replayed recorder scores item).toList := by
  unfold replayed
  cases hget : scores.bind (·.get? item.1) with
  | none =>
      unfold replayDoc at h
      simp only [hget] at h
      rw [← Except.ok.inj h]
      exact ⟨rfl, rfl, (List.append_nil _).symm⟩
  | some kept =>
      rw [replayDoc_eq hget (hfull item.1 kept hget)] at h
      rw [← Except.ok.inj h]
      refine ⟨congrArg List.length recorder.features_close, recorder.entries_close, ?_⟩
      rw [LogRecorder.take_withOpen, LogRecorder.entries_close]
      rfl

/-- **What a replay logs**: for each document with kept scores, the values that were
    kept as numbers, and nothing for any other document. -/
theorem replayLogs_take {scores : Option ScoreCache} {recorder finished : LogRecorder}
    {docs : List Nat}
    (hfull : ∀ doc kept, scores.bind (·.get? doc) = some kept → kept.length = recorder.featureCount)
    (h : replayLogs recorder scores docs = .ok finished) :
    finished.take.1 = recorder.take.1 ++ docs.zipIdx.filterMap (replayed recorder scores) := by
  have hitems : ∀ (items : List (Nat × Nat)) (recorder : LogRecorder),
      (∀ doc kept, scores.bind (·.get? doc) = some kept → kept.length = recorder.featureCount) →
      items.foldlM (replayDoc scores) recorder = .ok finished →
      finished.take.1 = recorder.take.1 ++ items.filterMap (replayed recorder scores) := by
    intro items
    induction items with
    | nil =>
        intro recorder _ h
        rw [← Except.ok.inj h]
        exact (List.append_nil _).symm
    | cons item rest ih =>
        intro recorder hfull h
        obtain ⟨next, hnext, hrest⟩ := bind_eq_ok.mp h
        obtain ⟨hcount, hentries, htake⟩ := replayDoc_take hfull hnext
        have hsame : replayed next scores = replayed recorder scores := by
          funext item
          unfold replayed
          rw [hcount, hentries]
        rw [ih next (by rw [hcount]; exact hfull) hrest, htake, hsame, List.append_assoc]
        cases hitem : replayed recorder scores item with
        | none => rw [List.filterMap_cons_none hitem]; rfl
        | some log => rw [List.filterMap_cons_some hitem]; rfl
  exact hitems docs.zipIdx recorder hfull h

/-- Each log of a replay was there, or is of a document with kept scores. -/
theorem replayLogs_logs {scores : Option ScoreCache} {recorder finished : LogRecorder}
    {docs : List Nat}
    (hfull : ∀ doc kept, scores.bind (·.get? doc) = some kept → kept.length = recorder.featureCount)
    (h : replayLogs recorder scores docs = .ok finished) :
    ∀ x ∈ finished.take.1, x ∈ recorder.take.1 ∨ ∃ doc kept, docs[x.1]? = some doc ∧
      scores.bind (·.get? doc) = some kept ∧
      x.2 = recorder.entries ⟨x.1, keptValues recorder.featureCount kept, none⟩ := by
  intro x hx
  rw [replayLogs_take hfull h] at hx
  rcases List.mem_append.mp hx with hold | hnew
  · exact Or.inl hold
  · obtain ⟨item, hitem, hlog⟩ := List.mem_filterMap.mp hnew
    obtain ⟨kept, hkept, rfl⟩ := Option.map_eq_some_iff.mp hlog
    exact Or.inr ⟨item.1, kept, List.mem_zipIdx_iff_getElem?.mp hitem, hkept, rfl⟩

/-! ## Scoring again -/

/-- Other scores kept for one query leave the slots of all others. -/
theorem slotOf?_keepScores {target other : LogTarget} (h : target ≠ other) (r : ShardRequest)
    (scores : Option ScoreCache) : (r.keepScores scores target).slotOf? other = r.slotOf? other := by
  cases target with
  | query place =>
      cases other with
      | stage place' => rfl
      | query place' =>
          have hne : place ≠ place' := fun heq => h (congrArg LogTarget.query heq)
          exact List.getElem?_modify_ne _ _ hne
  | stage place =>
      cases other with
      | query place' => rfl
      | stage place' =>
          have hne : place ≠ place' := fun heq => h (congrArg LogTarget.stage heq)
          exact congrArg (Option.bind · _) (List.getElem?_modify_ne _ _ hne)

/-- The weight that logs the features of a query by some weights. -/
def logWeight (q : RankingQuery) (ws : List Weight) : RankingWeight :=
  ⟨ws, RankingQuery.logRanker q.features, q.features⟩

/-- The finished recorder of a query whose documents were scored again, from no
    scores. -/
def Rescored (searcher : Searcher) (docs : List Nat) (logger : Logger) (q : RankingQuery)
    (ws : List Weight) (finished : LogRecorder) : Prop :=
  ∃ visits kept,
    ((logWeight q ws).under none).visit searcher.shard docs (some .empty) = .ok (visits, kept) ∧
    (recorder logger q).recordVisits visits = .ok finished

/-- The request once a log is written: its query keeps the scores that the log added. -/
def afterLog (r : ShardRequest) (target : LogTarget) (slot : Slot) (kept : Option ScoreCache) :
    ShardRequest :=
  if slot.scores.isSome then r.keepScores kept target else r

@[simp] theorem queryOf?_afterLog (r : ShardRequest) (target : LogTarget) (slot : Slot)
    (kept : Option ScoreCache) (other : LogTarget) :
    (r.afterLog target slot kept).queryOf? other = r.queryOf? other := by
  unfold afterLog
  by_cases h : slot.scores.isSome = true
  · rw [if_pos h, queryOf?_keepScores]
  · rw [if_neg h]

/-- A query that keeps no scores is not the one that a log adds scores to. -/
theorem slotOf?_afterLog {r : ShardRequest} {target other : LogTarget} {slot slot' : Slot}
    (hslot : r.slotOf? target = some slot) (hother : r.slotOf? other = some slot')
    (hoff : slot'.scores = none) (kept : Option ScoreCache) :
    (r.afterLog target slot kept).slotOf? other = some slot' := by
  unfold afterLog
  by_cases h : slot.scores.isSome = true
  · have hne : target ≠ other := by
      intro heq
      rw [heq, hother] at hslot
      rw [← Option.some.inj hslot, hoff] at h
      cases h
    rw [if_pos h, slotOf?_keepScores hne, hother]
  · rw [if_neg h, hother]

/-- One log that is written by scoring again, with the weights that it needs in the
    cache. -/
structure LogsAgain (searcher : Searcher) (docs : List Nat) (weights : WeightCache)
    (r : ShardRequest) (first : Logger) (slot : Slot) (q : RankingQuery) (ws : List Weight)
    (kept : Option ScoreCache) (finished : LogRecorder) : Prop where
  slotOf : r.slotOf? first.target = some slot
  query : slot.query.ranking? = some q
  holds : List.Forall₂ (weights.Holds searcher.isEmpty q.features.size) q.queries ws
  record : ∃ visits, ((logWeight q ws).under none).visit searcher.shard docs
      (some (slot.scores.getD .empty)) = .ok (visits, kept) ∧
    (recorder first q).recordVisits visits = .ok finished

/-- **The first of several logs**: without a ranking query it is passed over, and
    otherwise it is written before the others. -/
theorem rescoreLogs_cons {searcher : Searcher} {settings : Settings} {docs : List Nat}
    {weights : WeightCache} {first : Logger} {rest : List Logger} {r : ShardRequest}
    {recorders : List (String × LogRecorder)}
    (hcovers : ∀ q, r.queryOf? first.target = some q → Covers weights searcher.isEmpty q)
    (h : (rescoreLogs searcher settings docs (first :: rest) weights r).Yields recorders) :
    (r.queryOf? first.target = none ∧
      (rescoreLogs searcher settings docs rest weights r).Yields recorders) ∨
    ∃ slot q ws kept finished others,
      LogsAgain searcher docs weights r first slot q ws kept finished ∧
      (rescoreLogs searcher settings docs rest weights
        (r.afterLog first.target slot kept)).Yields others ∧
      recorders = (first.name, finished) :: others := by
  unfold rescoreLogs at h
  cases hslot : r.slotOf? first.target with
  | none =>
      simp only [hslot, Option.bind_none] at h
      exact Or.inl ⟨by rw [queryOf?, hslot, Option.bind_none], h⟩
  | some slot =>
      have hquery : r.queryOf? first.target = slot.query.ranking? := by
        rw [queryOf?, hslot, Option.bind_some]
      cases hq : slot.query.ranking? with
      | none =>
          simp only [hslot, Option.bind_some, hq, Option.map_none] at h
          exact Or.inl ⟨hquery.trans hq, h⟩
      | some q =>
          obtain ⟨ws, hholds⟩ := hcovers q (hquery.trans hq)
          have hweighted := weighted_of_holds settings (some (slot.scores.getD .empty)) hholds
          simp only [hslot, Option.bind_some, hq, Option.map_some, hweighted] at h
          obtain ⟨w, hw, h⟩ := yields_bind h
          by_cases henabled : settings.enabled = true
          · rw [if_pos henabled] at hw
            rw [← yields_pure hw] at h
            obtain ⟨⟨visits, kept⟩, hvisits, h⟩ := yields_bind h
            obtain ⟨finished, hfinished, h⟩ := yields_bind h
            obtain ⟨others, hothers, h⟩ := yields_bind h
            exact Or.inr ⟨slot, q, ws, kept, finished, others,
              ⟨hslot, hq, hholds, visits, yields_ofChecked hvisits, yields_ofChecked hfinished⟩,
              hothers, (yields_pure h).symm⟩
          · rw [if_neg henabled] at hw
            exact absurd hw not_yields_throw

/-- **Recorders of queries that are scored again**: one whose query keeps no scores
    is scored from none, whatever the loggers before it did. -/
theorem rescoreLogs_yields {searcher : Searcher} {settings : Settings} {docs : List Nat}
    {weights : WeightCache} {logger : Logger} {slot : Slot} {q : RankingQuery}
    (hq : slot.query.ranking? = some q) (hoff : slot.scores = none) (loggers : List Logger) :
    ∀ {r : ShardRequest} {recorders : List (String × LogRecorder)},
      (∀ other ∈ loggers, ∀ q, r.queryOf? other.target = some q →
        Covers weights searcher.isEmpty q) →
      (rescoreLogs searcher settings docs loggers weights r).Yields recorders →
      r.slotOf? logger.target = some slot →
      (logger ∈ loggers → ∃ finished, (logger.name, finished) ∈ recorders) ∧
      ((∀ other ∈ loggers, other.name = logger.name → other = logger) →
        ∀ finished, (logger.name, finished) ∈ recorders → ∃ ws,
          List.Forall₂ (weights.Holds searcher.isEmpty q.features.size) q.queries ws ∧
            Rescored searcher docs logger q ws finished) := by
  induction loggers with
  | nil =>
      intro r recorders _ h _
      rw [← yields_pure h]
      refine ⟨fun hin => ?_, fun _ _ hin => ?_⟩ <;> cases hin
  | cons first rest ih =>
      intro r recorders hcovers h hslot
      have hrest : ∀ other ∈ rest, ∀ q, r.queryOf? other.target = some q →
          Covers weights searcher.isEmpty q :=
        fun other hin => hcovers other (List.mem_cons_of_mem _ hin)
      rcases rescoreLogs_cons (hcovers first List.mem_cons_self) h with
        ⟨hnone, h⟩ | ⟨slot', q', ws, kept, finished, others, hfirst, hothers, heq⟩
      · obtain ⟨hsome, hunique⟩ := ih hrest h hslot
        have hne : logger ≠ first := by
          intro heq
          rw [← heq, queryOf?, hslot, Option.bind_some, hq] at hnone
          cases hnone
        refine ⟨fun hin => hsome ((List.mem_cons.mp hin).resolve_left hne), ?_⟩
        intro hother
        exact hunique fun other hin => hother other (List.mem_cons_of_mem _ hin)
      · obtain ⟨hsome, hunique⟩ := ih (fun other hin q hq =>
          hrest other hin q (by rwa [queryOf?_afterLog] at hq)) hothers
          (slotOf?_afterLog hfirst.slotOf hslot hoff kept)
        rw [heq]
        constructor
        · intro hin
          rcases List.mem_cons.mp hin with hfirst | hin
          · rw [hfirst]
            exact ⟨finished, List.mem_cons_self⟩
          · obtain ⟨finished', hin'⟩ := hsome hin
            exact ⟨finished', List.mem_cons_of_mem _ hin'⟩
        · intro hother finished' hin
          rcases List.mem_cons.mp hin with hhead | hin
          · obtain ⟨hname, hsame⟩ := Prod.mk.inj hhead
            have hlogger := hother first List.mem_cons_self hname.symm
            rw [hlogger] at hfirst
            have hslots : slot' = slot := Option.some.inj (hfirst.slotOf.symm.trans hslot)
            rw [hslots] at hfirst
            have hqueries : q' = q := Option.some.inj (hfirst.query.symm.trans hq)
            rw [hqueries] at hfirst
            obtain ⟨visits, hvisits, hrecord⟩ := hfirst.record
            rw [hoff] at hvisits
            rw [hsame]
            exact ⟨ws, hfirst.holds, visits, kept, hvisits, hrecord⟩
          · exact hunique (fun other hin => hother other (List.mem_cons_of_mem _ hin))
              finished' hin

/-- **What scoring again logs**: each document of the shard gets a log, with the
    vector that the definition gives for the logging weight. -/
theorem Rescored.logs {searcher : Searcher} {docs : List Nat} {logger : Logger}
    {q : RankingQuery} {ws : List Weight} {finished : LogRecorder}
    (h : Rescored searcher docs logger q ws finished) (hbuilt : searcher.shard.Built)
    (hdocs : docs.Nodup) (hcount : ws.length = q.features.size) {j doc inside : Nat}
    (hdoc : docs[j]? = some doc) {reader : SegmentReader} (hreader : reader ∈ searcher.shard.readers)
    (hpos : 0 < inside) (hle : inside ≤ reader.maxDoc) (habsolute : doc = reader.docBase + inside) :
    (∃ log, (j, log) ∈ finished.take.1) ∧
      ∀ log, (j, log) ∈ finished.take.1 → ∃ v extra,
        (logWeight q ws).Describes reader.segment inside v ∧
          log = (recorder logger q).entries ⟨j, v.values.toList, extra⟩ := by
  obtain ⟨visits, kept, hvisit, hrecord⟩ := h
  obtain ⟨visits', kept', hvisit', hvisited⟩ : ∃ visits' kept',
      ((logWeight q ws).under none).visit searcher.shard docs (some .empty)
        = .ok (visits', kept') ∧
      (logWeight q ws).Visited none searcher.shard.readers (RankingWeight.placesOf docs) visits'
        (some .empty) kept' :=
    RankingWeight.visit_under hbuilt (Nat.le_of_eq hcount) hdocs
      (Free.empty searcher.shard.readers)
  rw [hvisit'] at hvisit
  rw [(Prod.mk.inj (Except.ok.inj hvisit)).1] at hvisited
  have hfull : ∀ x ∈ visits, ∃ v, x.2.2.features = some v ∧
      v.size = (recorder logger q).featureCount := by
    intro x hx
    obtain ⟨r, -, -, -, -, v, hv, hdescribes, -⟩ := hvisited.sound x hx
    refine ⟨v, hv, hdescribes.size.trans ?_⟩
    exact (List.length_map _).symm
  obtain ⟨finished', hrecord', htake⟩ := LogRecorder.recordVisits_eq visits _ hfull
  rw [hrecord'] at hrecord
  rw [Except.ok.inj hrecord] at htake
  have htake : finished.take.1
      = visits.map fun x => (x.1, (recorder logger q).entriesFor x.2.2) := htake
  rw [htake]
  constructor
  · obtain ⟨scored, hmem⟩ := hvisited.complete reader hreader inside j hpos hle
      (RankingWeight.mem_placesOf.mpr (habsolute ▸ hdoc))
    exact ⟨_, List.mem_map_of_mem hmem⟩
  · intro log hmem
    obtain ⟨x, hx, heq⟩ := List.mem_map.mp hmem
    obtain ⟨hj, hlog⟩ := Prod.mk.inj heq
    obtain ⟨r, hr, hpos', hle', hplace, v, hv, hdescribes, -⟩ := hvisited.sound x hx
    rw [RankingWeight.mem_placesOf, hj, hdoc] at hplace
    obtain ⟨hsame, hinside⟩ := searcher.shard.readers_unique hreader hr hpos hle hpos' hle'
      (habsolute ▸ Option.some.inj hplace)
    rw [hsame, hinside]
    refine ⟨v, LogRecorder.extraOf x.2.2.extras none, hdescribes, ?_⟩
    rw [← hlog]
    unfold LogRecorder.entriesFor
    rw [hv]
    rfl

end ShardRequest

end FeatureRank
