import FeatureRank.Proofs.Search.Fetching
import FeatureRank.Proofs.Search.Kept

/-! # Which hits have which logs

    Logs of a shard are replayed when every logged query kept scores, and written by
    scoring the hits again otherwise (`ShardRequest.Replays`).  Scoring again reaches
    every hit; a replay reaches those that the logged query kept scores of.  Either way
    a log has an entry for each feature of the query, and one more at most for what the
    features left beside their values, which replayed scores never do
    (`ShardRequest.Written`).

    So every hit has the log of a named query, and the log of a rescore stage unless
    logs are replayed and the hit was not in the window of the stage
    (`Engine.hits_logged`). -/

namespace FeatureRank

open Tracked

/-! ## The entries of a log -/

/-- A log of a set of features: an entry for each of them by ordinal, under its name
    and with a score if there is something to report, and then an entry for what the
    features left beside their values, if they left anything. -/
def FeatureSet.Logs (features : FeatureSet) (extra : Option (List (String × Json)))
    (log : List LogEntry) : Prop :=
  ∃ entries : List LogEntry,
    log = entries ++ (extra.map fun values => ⟨LogEntry.extraName, some (.extra values)⟩).toList ∧
    entries.map (·.name) = features.names ∧
    ∀ entry ∈ entries, ∀ value, entry.value = some value → ∃ score, value = .score score

theorem LogRecorder.reported_eq_some {r : LogRecorder} {value : Option Float32} {entry : LogValue}
    (h : r.reported value = some entry) : ∃ score, entry = .score score := by
  unfold reported at h
  split at h
  · exact ⟨_, (Option.some.inj h).symm⟩
  · exact ⟨_, (Option.some.inj (Option.ite_none_right_eq_some.mp h).2).symm⟩

namespace ShardRequest

/-- **What a recorder writes** for a value of each feature. -/
theorem entries_logs (logger : Logger) (q : RankingQuery) {log : OpenLog}
    (hvalues : log.values.length = q.features.size) :
    q.features.Logs log.extra ((recorder logger q).entries log) := by
  refine ⟨_, rfl, ?_, ?_⟩
  · rw [List.map_map]
    refine (List.map_fst_zip (Nat.le_of_eq ?_))
    rw [hvalues]
    exact List.length_map _
  · intro entry hentry value hvalue
    obtain ⟨x, -, rfl⟩ := List.mem_map.mp hentry
    exact LogRecorder.reported_eq_some hvalue

/-! ## The two ways to write logs -/

/-- Whether the logs of a shard are replayed: every logged query kept scores. -/
def Replays (r : ShardRequest) : Prop := ∀ x ∈ r.logged, hasScores x.2.1 = true

/-- Whether a query keeps scores of a document. -/
def Keeps (r : ShardRequest) (target : LogTarget) (doc : Nat) : Prop :=
  ∃ slot, r.slotOf? target = some slot ∧ ScoreCache.Has slot.scores doc

/-- Whether an earlier log is of the same query, which keeps scores. -/
def Follows (r : ShardRequest) (logger : Logger) : Prop :=
  ∃ slot earlier later, r.slotOf? logger.target = some slot ∧ slot.scores.isSome = true ∧
    r.loggers = earlier ++ logger :: later ∧ ∃ other ∈ earlier, other.target = logger.target

/-- What a finished recorder wrote for the document of a hit: whether there is a log,
    and what it consists of.  It has nothing beside the features where scores were
    replayed: for all logs, for one whose query kept scores of the document while
    ranking, and for one whose query was made to keep them by an earlier log. -/
structure Written (r : ShardRequest) (logger : Logger) (q : RankingQuery) (j doc : Nat)
    (finished : LogRecorder) : Prop where
  present : (∃ log, (j, log) ∈ finished.take.1) ↔ (r.Replays → r.Keeps logger.target doc)
  entries : ∀ log, (j, log) ∈ finished.take.1 → ∃ extra, q.features.Logs extra log ∧
    (r.Replays ∨ r.Keeps logger.target doc ∨ r.Follows logger → extra = none)

/-! ## Replaying -/

section

variable {r : ShardRequest} {logger : Logger} {slot : Slot} {q : RankingQuery} {docs : List Nat}
  {finished : LogRecorder}

/-- **A replay** writes a log for the documents whose scores were kept. -/
theorem replayLogs_written (hslot : r.slotOf? logger.target = some slot) (hreplays : r.Replays)
    (hfull : ∀ doc kept, slot.scores.bind (·.get? doc) = some kept →
      kept.length = q.features.size)
    (h : replayLogs (recorder logger q) slot.scores docs = .ok finished) {j doc : Nat}
    (hdoc : docs[j]? = some doc) : r.Written logger q j doc finished := by
  have hcount : (recorder logger q).featureCount = q.features.size := List.length_map _
  rw [← hcount] at hfull
  have htake : finished.take.1
      = docs.zipIdx.filterMap (replayed (recorder logger q) slot.scores) := replayLogs_take hfull h
  have hlogs : ∀ log, (j, log) ∈ finished.take.1 ↔ ∃ kept,
      slot.scores.bind (·.get? doc) = some kept ∧ log = (recorder logger q).entries
        ⟨j, keptValues (recorder logger q).featureCount kept, none⟩ := by
    intro log
    rw [htake, List.mem_filterMap]
    constructor
    · rintro ⟨⟨doc', j'⟩, hmem, hlog⟩
      obtain ⟨kept, hkept, hpair⟩ := Option.map_eq_some_iff.mp hlog
      obtain ⟨rfl, rfl⟩ := Prod.mk.inj hpair
      obtain rfl : doc = doc' :=
        Option.some.inj (hdoc.symm.trans (List.mem_zipIdx_iff_getElem?.mp hmem))
      exact ⟨kept, hkept, rfl⟩
    · rintro ⟨kept, hkept, rfl⟩
      exact ⟨(doc, j), List.mem_zipIdx_iff_getElem?.mpr hdoc,
        Option.map_eq_some_iff.mpr ⟨kept, hkept, rfl⟩⟩
  constructor
  · constructor
    · rintro ⟨log, hlog⟩ -
      obtain ⟨kept, hkept, -⟩ := (hlogs log).mp hlog
      exact ⟨slot, hslot, Option.isSome_iff_exists.mpr ⟨kept, hkept⟩⟩
    · intro h
      obtain ⟨slot', hslot', hhas⟩ := h hreplays
      obtain rfl : slot = slot' := Option.some.inj (hslot.symm.trans hslot')
      obtain ⟨kept, hkept⟩ := Option.isSome_iff_exists.mp hhas
      exact ⟨_, (hlogs _).mpr ⟨kept, hkept, rfl⟩⟩
  · intro log hlog
    obtain ⟨kept, hkept, rfl⟩ := (hlogs log).mp hlog
    refine ⟨none, entries_logs logger q ?_, fun _ => rfl⟩
    rw [hcount]
    exact length_keptValues (hcount ▸ hfull doc kept hkept)

end

/-! ## Scoring again -/

/-- **A document that is scored again** has something beside its features only if no
    scores were kept for it. -/
theorem entriesAgain_logs (logger : Logger) (q : RankingQuery) (ws : List Weight)
    (doc : List TermId) (kept : Option (List Float32)) :
    ∃ extra, q.features.Logs extra (entriesAgain logger q ws doc kept) ∧
      (kept.isSome = true → extra = none) := by
  unfold entriesAgain
  refine ⟨_, entries_logs logger q ?_, ?_⟩
  · rw [show ((logWeight q ws).scoredOn doc kept).features
      = some ((logWeight q ws).gatheredOn doc kept).vector from rfl]
    exact RankingWeight.size_gatheredOn _ _ _
  · intro hkept
    obtain ⟨scores, rfl⟩ := Option.isSome_iff_exists.mp hkept
    rfl

section

variable {docs : List IndexedDocument} {s : Shard} {settings : Settings} {numbers : List Nat}
  {weights : WeightCache} {r : ShardRequest}

/-- Whether scores of a document are there when its log is written after some others:
    they were kept before, or an earlier log was of the same query and kept them. -/
def HeldAfter (earlier : List Logger) (logger : Logger) (slot : Slot) (n : Nat) : Prop :=
  ScoreCache.Has slot.scores n ∨
    slot.scores.isSome = true ∧ ∃ other ∈ earlier, other.target = logger.target

/-- What a recorder wrote for the document of a hit that it scored again, after the
    logs of some others: a log, with something beside the features only where scores
    were not there. -/
def WrittenAgain (earlier : List Logger) (logger : Logger) (slot : Slot) (q : RankingQuery)
    (j n : Nat) (finished : LogRecorder) : Prop :=
  (∃ log, (j, log) ∈ finished.take.1) ∧ ∀ log, (j, log) ∈ finished.take.1 →
    ∃ extra, q.features.Logs extra log ∧ (HeldAfter earlier logger slot n → extra = none)

theorem WrittenAgain.mono {earlier earlier' : List Logger} {logger : Logger} {slot slot' : Slot}
    {q : RankingQuery} {j n : Nat} {finished : LogRecorder}
    (h : WrittenAgain earlier logger slot q j n finished)
    (hheld : HeldAfter earlier' logger slot' n → HeldAfter earlier logger slot n) :
    WrittenAgain earlier' logger slot' q j n finished := by
  refine ⟨h.1, fun log hlog => ?_⟩
  obtain ⟨extra, hshape, hextra⟩ := h.2 log hlog
  exact ⟨extra, hshape, fun hthere => hextra (hheld hthere)⟩

/-- The log that is written first. -/
theorem WrittenAgain.first {j n : Nat} (hn : numbers[j]? = some n)
    (hin : (Shard.termsAt docs n).isSome = true) {logger : Logger} {slot : Slot}
    {q : RankingQuery} {ws : List Weight} {finished : LogRecorder}
    (htake : finished.take.1 = ((QueryWeight.ranking (logWeight q ws)).visitsOn
      (Shard.termsAt docs) (some (slot.scores.getD .empty)) (RankingWeight.placesOf numbers)).map
        fun x => (x.1, (recorder logger q).entriesFor x.2)) :
    WrittenAgain [] logger slot q j n finished := by
  obtain ⟨doc, hdoc⟩ := Option.isSome_iff_exists.mp hin
  rw [WrittenAgain, htake]
  constructor
  · have hvisit : (j, (logWeight q ws).scoredOn doc
          ((some (slot.scores.getD .empty)).bind (·.get? n)))
        ∈ (QueryWeight.ranking (logWeight q ws)).visitsOn (Shard.termsAt docs)
          (some (slot.scores.getD .empty)) (RankingWeight.placesOf numbers) := by
      refine List.mem_filterMap.mpr ⟨(n, j), RankingWeight.mem_placesOf.mpr hn, ?_⟩
      rw [hdoc]
      rfl
    exact ⟨_, List.mem_map.mpr ⟨_, hvisit, rfl⟩⟩
  · intro log hlog
    obtain ⟨y, hy, heq⟩ := List.mem_map.mp hlog
    obtain ⟨x, hx, hscored⟩ := List.mem_filterMap.mp hy
    obtain ⟨doc', -, rfl⟩ := Option.map_eq_some_iff.mp hscored
    obtain ⟨rfl, rfl⟩ := Prod.mk.inj heq
    obtain rfl : x.1 = n := Option.some.inj ((RankingWeight.mem_placesOf.mp hx).symm.trans hn)
    obtain ⟨extra, hshape, hextra⟩ := entriesAgain_logs logger q ws doc'
      ((some (slot.scores.getD .empty)).bind (·.get? x.1))
    refine ⟨extra, hshape, fun hthere => hextra ?_⟩
    rw [get?_getD_empty]
    exact hthere.resolve_right fun ⟨_, other, hother, _⟩ => nomatch hother

/-- Other scores kept for the query of a log. -/
theorem slotOf?_keepScores_self {target : LogTarget} {slot : Slot}
    (h : r.slotOf? target = some slot) (scores : Option ScoreCache) :
    (r.keepScores scores target).slotOf? target = some { slot with scores } := by
  cases target with
  | query place =>
      have h : r.queries[place]? = some slot := h
      show (r.queries.modify place _)[place]? = _
      rw [List.getElem?_modify_eq, h]
      rfl
  | stage place =>
      obtain ⟨stage, hstage, hquery⟩ := Option.bind_eq_some_iff.mp h
      show ((r.rescores.modify place _)[place]?).bind _ = _
      rw [List.getElem?_modify_eq, hstage]
      cases stage with
      | scale factor window => exact nomatch hquery
      | query old queryWeight rescoreWeight window =>
          obtain rfl : old = slot := Option.some.inj hquery
          rfl

/-- What a logger finds after an earlier log: the same query, with the scores that the
    log added if it was of the same one. -/
theorem found?_afterLog {first other : Logger} {slot slot' : Slot} {q q' : RankingQuery}
    {kept : Option ScoreCache} (hfound : r.found? first = some (slot, q))
    (hkept : kept.isSome = true ∧ ∀ n, ScoreCache.Has slot.scores n → ScoreCache.Has kept n)
    (h : (r.afterLog first.target slot kept).found? other = some (slot', q')) :
    ∃ old, r.found? other = some (old, q') ∧ slot'.scores.isSome = old.scores.isSome ∧
      (∀ n, ScoreCache.Has old.scores n → ScoreCache.Has slot'.scores n) ∧
      (first.target = other.target → old.scores.isSome = true → slot'.scores = kept) := by
  have hslot := (found?_eq_some hfound).1
  obtain ⟨hslot', hq'⟩ := found?_eq_some h
  have hfinds : ∀ old, r.slotOf? other.target = some old → old.query = slot'.query →
      r.found? other = some (old, q') := by
    intro old hold hquery
    unfold found?
    rw [hold, Option.bind_some, hquery, hq']
    rfl
  unfold afterLog at hslot'
  by_cases hscores : slot.scores.isSome = true
  · rw [if_pos hscores] at hslot'
    by_cases htarget : first.target = other.target
    · rw [← htarget, slotOf?_keepScores_self hslot] at hslot'
      obtain rfl := Option.some.inj hslot'
      exact ⟨slot, hfinds slot (htarget ▸ hslot) rfl, hkept.1.trans hscores.symm, hkept.2,
        fun _ _ => rfl⟩
    · rw [slotOf?_keepScores htarget] at hslot'
      exact ⟨slot', hfinds slot' hslot' rfl, rfl, fun _ h => h, fun heq => absurd heq htarget⟩
  · rw [if_neg hscores] at hslot'
    refine ⟨slot', hfinds slot' hslot' rfl, rfl, fun _ h => h, fun heq hsome => ?_⟩
    rw [← heq, hslot] at hslot'
    exact absurd (Option.some.inj hslot' ▸ hsome) hscores

theorem found?_isSome_afterLog {target : LogTarget} {slot : Slot} {kept : Option ScoreCache}
    {logger : Logger} :
    ((r.afterLog target slot kept).found? logger).isSome = true ↔
      (r.found? logger).isSome = true := by
  have hquery : ∀ r : ShardRequest,
      (r.found? logger).isSome = (r.queryOf? logger.target).isSome := by
    intro r
    unfold found? queryOf?
    cases r.slotOf? logger.target with
    | none => rfl
    | some slot => exact Option.isSome_map
  rw [hquery, hquery, queryOf?_afterLog]

/-- What a log keeps: what was kept before, and the scores of all its documents. -/
theorem has_afterVisits (docs : List IndexedDocument) (numbers : List Nat) (w : RankingWeight)
    (scores : Option ScoreCache) :
    let kept := (QueryWeight.ranking w).visitCacheOn (Shard.termsAt docs)
      (some (scores.getD .empty)) (RankingWeight.placesOf numbers)
    kept.isSome = true ∧ (∀ n, ScoreCache.Has scores n → ScoreCache.Has kept n) ∧
      ∀ n ∈ numbers, (Shard.termsAt docs n).isSome = true → ScoreCache.Has kept n := by
  have hranks : (QueryWeight.ranking w).Ranks := trivial
  refine ⟨QueryWeight.isSome_visitCacheOn _ _ _ _, fun n hn => ?_, fun n hn hin => ?_⟩
  · refine (hranks.has_visitCacheOn _).mpr (.inl ?_)
    unfold ScoreCache.Has
    rw [get?_getD_empty]
    exact hn
  · exact (hranks.has_visitCacheOn _).mpr
      (.inr ⟨rfl, hin, RankingWeight.mem_map_placesOf.mpr hn⟩)

/-- **Logs by scoring again**: one for each logger that finds a ranking query, in which
    each document has a log. -/
theorem rescoreLogs_written (hs : s.Holds docs) (hnumbers : numbers.Nodup) {j n : Nat}
    (hn : numbers[j]? = some n) (hin : (Shard.termsAt docs n).isSome = true)
    (loggers : List Logger) :
    ∀ {r : ShardRequest} {recorders : List (String × LogRecorder)}, r.Fits →
      (∀ logger ∈ loggers, ∀ q, r.queryOf? logger.target = some q →
        settings.enabled = true ∧ Covers weights (Searcher.isEmpty { shard := s }) q) →
      (rescoreLogs { shard := s } settings numbers loggers weights r).Yields recorders →
      (∀ logger ∈ loggers, (r.found? logger).isSome = true →
        ∃ finished, (logger.name, finished) ∈ recorders) ∧
      ∀ x ∈ recorders, ∃ earlier logger later slot q, loggers = earlier ++ logger :: later ∧
        r.found? logger = some (slot, q) ∧ x.1 = logger.name ∧
        WrittenAgain earlier logger slot q j n x.2 := by
  induction loggers with
  | nil =>
      intro r recorders _ _ h
      rw [← yields_pure h]
      exact ⟨List.forall_mem_nil _, List.forall_mem_nil _⟩
  | cons first rest ih =>
      intro r recorders hr hcovers h
      obtain ⟨hfirst, hrest⟩ := List.forall_mem_cons.mp hcovers
      cases hfound : r.found? first with
      | none =>
          have hnone : (r.slotOf? first.target).bind
              (fun slot => slot.query.ranking?.map ((slot, ·))) = none := hfound
          rw [rescoreLogs, hnone] at h
          obtain ⟨hsome, hwritten⟩ := ih hr hrest h
          refine ⟨List.forall_mem_cons.mpr ⟨fun h => ?_, hsome⟩, fun x hx => ?_⟩
          · rw [hfound] at h
            cases h
          · obtain ⟨earlier, logger, later, slot, q, hloggers, hlogger, hname, hlogs⟩ :=
              hwritten x hx
            refine ⟨first :: earlier, logger, later, slot, q, congrArg (first :: ·) hloggers,
              hlogger, hname, hlogs.mono fun hheld => ?_⟩
            -- a logger of the same query would have found it
            have hne : first.target ≠ logger.target := by
              intro heq
              unfold found? at hfound hlogger
              rw [heq, hlogger] at hfound
              cases hfound
            rcases hheld with hhas | ⟨hkeeps, other, hother, htarget⟩
            · exact .inl hhas
            · rcases List.mem_cons.mp hother with rfl | hother
              · exact absurd htarget hne
              · exact .inr ⟨hkeeps, other, hother, htarget⟩
      | some found =>
          obtain ⟨slot, q⟩ := found
          obtain ⟨hslot, hq⟩ := found?_eq_some hfound
          obtain ⟨henabled, ws, hholds⟩ :=
            hfirst q (Option.bind_eq_some_iff.mpr ⟨slot, hslot, hq⟩)
          obtain ⟨kept, finished, hlogs, hafter, hkept, htake⟩ :=
            rescoreLogs_cons_eq hs henabled hnumbers hr hfound hholds rest
          obtain ⟨hsome, hgrown, hall⟩ := has_afterVisits docs numbers (logWeight q ws) slot.scores
          rw [← hkept] at hsome hgrown hall
          rw [hlogs] at h
          obtain ⟨others, hothers, h⟩ := yields_bind h
          rw [← yields_pure h]
          obtain ⟨hwrites, hwritten⟩ := ih hafter (fun logger hlogger q hquery =>
            hrest logger hlogger q (by rwa [queryOf?_afterLog] at hquery)) hothers
          constructor
          · refine List.forall_mem_cons.mpr ⟨fun _ => ⟨finished, List.mem_cons_self⟩, ?_⟩
            intro logger hlogger hfinds
            obtain ⟨finished', hmem⟩ := hwrites logger hlogger (found?_isSome_afterLog.mpr hfinds)
            exact ⟨finished', List.mem_cons_of_mem _ hmem⟩
          · refine List.forall_mem_cons.mpr ⟨?_, fun x hx => ?_⟩
            · exact ⟨[], first, rest, slot, q, rfl, hfound, rfl, .first hn hin htake⟩
            · obtain ⟨earlier, logger, later, slot', q', hloggers, hlogger, hname, hlogs⟩ :=
                hwritten x hx
              obtain ⟨old, hold, hkeeps, hmore, hsame⟩ :=
                found?_afterLog hfound ⟨hsome, hgrown⟩ hlogger
              refine ⟨first :: earlier, logger, later, old, q', congrArg (first :: ·) hloggers,
                hold, hname, hlogs.mono fun hheld => ?_⟩
              rcases hheld with hhas | ⟨holdKeeps, other, hother, htarget⟩
              · exact .inl (hmore n hhas)
              · rcases List.mem_cons.mp hother with rfl | hother
                · refine .inl ?_
                  rw [hsame htarget holdKeeps]
                  exact hall n (List.mem_of_getElem? hn) hin
                · exact .inr ⟨hkeeps.trans holdKeeps, other, hother, htarget⟩

/-! ## The logs of a shard -/

/-- **What the recorders of a shard wrote**, whichever way: there is one for each logger,
    and each is of a logger. -/
theorem recorders_written (hs : s.Holds docs) (hnumbers : numbers.Nodup) {j n : Nat}
    (hn : numbers[j]? = some n) (hin : (Shard.termsAt docs n).isSome = true)
    {global : Option GlobalStatistics}
    (hready : r.Ready ⟨s, global⟩ settings) (hnames : (r.loggers.map (·.name)).Nodup)
    (hfull : ∀ x ∈ r.logged, ∀ doc kept, x.2.1.scores.bind (·.get? doc) = some kept →
      kept.length = x.2.2.features.size)
    {recorders : List (String × LogRecorder)}
    (h : (r.recorders { shard := s } settings numbers).Yields recorders) :
    (∀ logger ∈ r.loggers, (r.found? logger).isSome = true →
      ∃ finished, (logger.name, finished) ∈ recorders) ∧
    ∀ x ∈ recorders, ∃ logger ∈ r.loggers, ∃ q, r.queryOf? logger.target = some q ∧
      x.1 = logger.name ∧ r.Written logger q j n x.2 := by
  have hquery : ∀ {logger slot q}, r.found? logger = some (slot, q) →
      r.queryOf? logger.target = some q := by
    intro logger slot q hfound
    obtain ⟨hslot, hq⟩ := found?_eq_some hfound
    exact Option.bind_eq_some_iff.mpr ⟨slot, hslot, hq⟩
  unfold ShardRequest.recorders at h
  by_cases hall : (r.logged.all fun x => hasScores x.2.1) = true
  · rw [if_pos hall] at h
    have hitems := yields_mapM h
    constructor
    · intro logger hlogger hfound
      obtain ⟨⟨slot, q⟩, hfound⟩ := Option.isSome_iff_exists.mp hfound
      obtain ⟨hslot, hq⟩ := found?_eq_some hfound
      obtain ⟨x, hx, hreplay⟩ := forall₂_mem hitems (mem_logged.mpr ⟨hlogger, hslot, hq⟩)
      obtain ⟨finished, -, heq⟩ := yields_bind hreplay
      rw [← yields_pure heq] at hx
      exact ⟨finished, hx⟩
    · intro x hx
      obtain ⟨⟨logger, slot, q⟩, hitem, hreplay⟩ := forall₂_mem hitems.flip hx
      obtain ⟨finished, hfinished, heq⟩ := yields_bind hreplay
      obtain ⟨hlogger, hslot, hq⟩ := mem_logged.mp hitem
      rw [← yields_pure heq]
      exact ⟨logger, hlogger, q, Option.bind_eq_some_iff.mpr ⟨slot, hslot, hq⟩, rfl,
        replayLogs_written hslot (List.all_eq_true.mp hall) (hfull _ hitem)
          (yields_ofChecked hfinished) hn⟩
  · rw [if_neg hall] at h
    have hnot : ¬r.Replays := fun hreplays => hall (List.all_eq_true.mpr hreplays)
    obtain ⟨hsome, hwritten⟩ :=
      rescoreLogs_written hs hnumbers hn hin r.loggers hready.fits hready.logged h
    refine ⟨hsome, fun x hx => ?_⟩
    obtain ⟨earlier, logger, later, slot, q, hloggers, hfound, hname, hlogs⟩ := hwritten x hx
    refine ⟨logger, ?_, q, hquery hfound, hname, ?_, ?_⟩
    · rw [hloggers]
      exact List.mem_append_right _ List.mem_cons_self
    · exact iff_of_true hlogs.1 fun hreplays => absurd hreplays hnot
    · intro log hlog
      obtain ⟨extra, hshape, hextra⟩ := hlogs.2 log hlog
      have hslot := (found?_eq_some hfound).1
      refine ⟨extra, hshape, fun hrecalled => hextra ?_⟩
      rcases hrecalled with hreplays | ⟨slot', hslot', hhas⟩ |
        ⟨slot', earlier', later', hslot', hkeeps, hloggers', hother⟩
      · exact absurd hreplays hnot
      · obtain rfl : slot = slot' := Option.some.inj (hslot.symm.trans hslot')
        exact .inl hhas
      · obtain rfl : slot = slot' := Option.some.inj (hslot.symm.trans hslot')
        -- the logger stands only once among the loggers
        obtain rfl : earlier = earlier' := by
          have hnodup := List.Nodup.of_map _ hnames
          rw [hloggers, List.nodup_middle, List.nodup_cons, List.mem_append, not_or] at hnodup
          exact ((List.append_cons_inj_of_notMem hnodup.1.1 hnodup.1.2).mp
            (hloggers.symm.trans hloggers')).1
        exact .inr ⟨hkeeps, hother⟩

end

end ShardRequest

/-! ## Specs -/

namespace LogSpec

/-- Checked specs are all clear. -/
theorem check_eq_ok {specs checked : List LogSpec} (h : check specs = .ok checked) :
    ∀ spec ∈ specs, spec.isClear = true := by
  intro spec hspec
  unfold check at h
  cases hfind : specs.find? fun s => !s.isClear with
  | some s =>
      rw [hfind] at h
      cases h
  | none =>
      have hclear := List.find?_eq_none.mp hfind spec hspec
      rwa [Bool.not_eq_true, Bool.not_eq_false'] at hclear

/-- What a spec points at: a named query, or the stage that it says. -/
def PointsAt (spec : LogSpec) : LogTarget → Prop
  | .query _ => spec.namedQuery.isSome = true ∧ spec.rescoreIndex = none
  | .stage place => spec.namedQuery = none ∧ spec.rescoreIndex = some place

theorem PointsAt.ne_stage {spec : LogSpec} {target : LogTarget} (h : spec.PointsAt target)
    (hnamed : spec.namedQuery.isSome = true) (place : Nat) : target ≠ .stage place := by
  rintro rfl
  rw [h.1] at hnamed
  cases hnamed

theorem PointsAt.eq_stage {spec : LogSpec} {target : LogTarget} (h : spec.PointsAt target)
    {place : Nat} (hplace : spec.rescoreIndex = some place) : target = .stage place := by
  cases target with
  | query other => cases hplace.symm.trans h.2
  | stage other => exact congrArg _ (Option.some.inj (h.2.symm.trans hplace))

end LogSpec

namespace ShardRequest

/-- The query of a name that resolves. -/
theorem resolveQuery_eq_ok {r : ShardRequest} {name : String} {target : LogTarget}
    (h : resolveQuery name r.queries = .ok target) :
    ∃ place q, target = .query place ∧ r.queryOf? target = some q := by
  unfold resolveQuery at h
  split at h
  · cases h
  · next place _ =>
      split at h
      · cases h
      · next slot hslot =>
          split at h
          · next hranks =>
              obtain ⟨q, hq⟩ := Option.isSome_iff_exists.mp hranks
              obtain rfl := Except.ok.inj h
              exact ⟨place, q, rfl, Option.bind_eq_some_iff.mpr ⟨slot, hslot, hq⟩⟩
          · cases h

/-- The stage of a place that resolves. -/
theorem resolveStage_eq_ok {r : ShardRequest} {place : Nat} {target : LogTarget}
    (h : resolveStage place r.rescores = .ok target) :
    target = .stage place ∧ ∃ q, r.queryOf? target = some q := by
  unfold resolveStage at h
  split at h
  · cases h
  · next stage hstage =>
      split at h
      · cases h
      · next slot hslot =>
          split at h
          · next hranks =>
              obtain ⟨q, hq⟩ := Option.isSome_iff_exists.mp hranks
              obtain rfl := Except.ok.inj h
              exact ⟨rfl, q, Option.bind_eq_some_iff.mpr
                ⟨slot, Option.bind_eq_some_iff.mpr ⟨stage, hstage, hslot⟩, hq⟩⟩
          · cases h

/-- **A clear spec that resolves** points at a ranking query. -/
theorem resolve_clear {r : ShardRequest} {spec : LogSpec} (hclear : spec.isClear = true)
    {found : Option Logger} (h : resolve r.queries r.rescores spec = .ok found) :
    ∃ logger q, found = some logger ∧ r.queryOf? logger.target = some q ∧
      spec.PointsAt logger.target := by
  unfold LogSpec.isClear at hclear
  unfold resolve at h
  cases hname : spec.namedQuery with
  | some name =>
      have hindex : spec.rescoreIndex = none := by
        rw [hname] at hclear
        cases hindex : spec.rescoreIndex with
        | none => rfl
        | some place =>
            rw [hindex] at hclear
            cases hclear
      simp only [hname] at h
      obtain ⟨target, htarget, h⟩ := bind_eq_ok.mp h
      obtain ⟨place, q, rfl, hq⟩ := resolveQuery_eq_ok htarget
      refine ⟨_, q, (Except.ok.inj h).symm, hq, ?_, hindex⟩
      rw [hname]
      rfl
  | none =>
      cases hindex : spec.rescoreIndex with
      | none =>
          rw [hname, hindex] at hclear
          cases hclear
      | some place =>
          simp only [hname, hindex] at h
          obtain ⟨target, htarget, h⟩ := bind_eq_ok.mp h
          obtain ⟨rfl, q, hq⟩ := resolveStage_eq_ok htarget
          exact ⟨_, q, (Except.ok.inj h).symm, hq, hname, hindex⟩

variable {dictionary : Dictionary} {settings : Settings} {request : SearchRequest}
  {r : ShardRequest}

/-- Each clear spec has its logger. -/
theorem ofRequest_clear (h : (ofRequest dictionary settings request).Yields r)
    (hclear : ∀ spec ∈ request.logs, spec.isClear = true) {spec : LogSpec}
    (hspec : spec ∈ request.logs) :
    ∃ logger q, resolve r.queries r.rescores spec = .ok (some logger) ∧ logger ∈ r.loggers ∧
      r.queryOf? logger.target = some q ∧ spec.PointsAt logger.target := by
  obtain ⟨-, -, resolved, hresolved, -⟩ := ofRequest_parts h
  obtain ⟨found, -, hfound⟩ := forall₂_mem (mapM_eq_ok.mp hresolved) hspec
  obtain ⟨logger, q, rfl, hq, hpoints⟩ := resolve_clear (hclear spec hspec) hfound
  exact ⟨logger, q, hfound, (ofRequest_loggers h logger).mpr ⟨spec, hspec, hfound⟩, hq, hpoints⟩

/-- The loggers of clear specs have the names of the specs, in order. -/
theorem ofRequest_names (h : (ofRequest dictionary settings request).Yields r)
    (hclear : ∀ spec ∈ request.logs, spec.isClear = true) :
    r.loggers.map (·.name) = request.logs.map (·.loggerName) := by
  obtain ⟨-, -, resolved, hresolved, hloggers⟩ := ofRequest_parts h
  rw [hloggers]
  have hspecs := mapM_eq_ok.mp hresolved
  clear hresolved hloggers h
  generalize request.logs = specs at hclear hspecs ⊢
  induction hspecs with
  | nil => rfl
  | cons hfirst _ ih =>
      obtain ⟨hhere, hrest⟩ := List.forall_mem_cons.mp hclear
      obtain ⟨logger, -, rfl, -, -⟩ := resolve_clear hhere hfirst
      rw [List.filterMap_cons_some (f := id) rfl, List.map_cons, List.map_cons, ih hrest,
        (resolve_eq_ok hfirst).1]

/-- Scores that were kept while a shard was scored have one for each feature. -/
theorem length_kept_of_score {s : Shard} {global : Option GlobalStatistics} {r' : ShardRequest}
    {hits : List ShardHit} (hs : s.Built) (hfresh : r.Fresh)
    (h : (r.score ⟨s, global⟩ settings).Yields (r', hits)) :
    ∀ x ∈ r'.logged, ∀ doc kept, x.2.1.scores.bind (·.get? doc) = some kept →
      kept.length = x.2.2.features.size := by
  rintro ⟨logger, after, q⟩ hx doc kept hkept
  obtain ⟨-, -, -, -, hranked⟩ := score_yields hs hfresh h
  obtain ⟨-, hafter, hq⟩ := mem_logged.mp hx
  obtain ⟨slot, w, hslot, hdone⟩ := hranked logger.target after q hafter hq
  obtain ⟨cache, hcache, hget⟩ := Option.bind_eq_some_iff.mp hkept
  obtain ⟨-, v, -, -, rfl⟩ := hdone.kept cache hcache doc kept hget
  rw [hdone.query] at hq
  rw [FeatureVector.kept, List.length_map, List.length_range']
  exact ((hfresh _ slot hslot).count hq hdone.made).1

/-- **When logs are replayed**, a query that is logged keeps the scores of a hit unless
    it is that of a stage and the hit was not in its window. -/
theorem Replays.keeps_iff {docs : List IndexedDocument} {s : Shard}
    {global : Option GlobalStatistics} {r' : ShardRequest} {hits : List ShardHit}
    (hreplays : r'.Replays) (hs : s.Holds docs) (hfresh : r.Fresh) (hfits : r.Fits)
    (h : (r.score ⟨s, global⟩ settings).Yields (r', hits)) {logger : Logger}
    (hlogger : logger ∈ r'.loggers) {q : RankingQuery} (hq : r'.queryOf? logger.target = some q)
    {doc : Nat} (hdoc : doc ∈ hits.map (·.doc)) :
    r'.Keeps logger.target doc ↔
      ∀ place, logger.target = .stage place → r.InWindow ⟨s, global⟩ settings place doc := by
  obtain ⟨slot, hslot, hq⟩ := Option.bind_eq_some_iff.mp hq
  have hscores : slot.scores.isSome = true := by
    have hkept := hreplays _ (mem_logged.mpr ⟨hlogger, hslot, hq⟩)
    unfold hasScores at hkept
    cases hscores : slot.scores with
    | some cache => rfl
    | none =>
        simp only [hscores] at hkept
        cases hkept
  have hhas := (score_keeps hs hfresh hfits h).2 logger.target slot q hslot hq doc hdoc
  rw [and_iff_right hscores] at hhas
  rw [← hhas]
  constructor
  · rintro ⟨slot', hslot', hkeeps⟩
    rw [hslot] at hslot'
    rw [Option.some.inj hslot']
    exact hkeeps
  · exact fun hkeeps => ⟨slot, hslot, hkeeps⟩

end ShardRequest

namespace Engine

open ShardRequest

variable {e : Engine} {request : SearchRequest} {response : SearchResponse} {hit : SearchHit}

/-- A search that has a response scored its shards. -/
theorem scored_of_search (hbuilt : e.Built) (haccepted : request.Accepted)
    (hsearch : (e.search request).2 = .ok response) :
    ∃ parts after candidates, (e.track (e.scored request)).2 = .ok (parts, after, candidates) := by
  have hends := search_ends hbuilt haccepted
  rw [hsearch] at hends
  cases hscored : (e.track (e.scored request)).2 with
  | ok found => exact ⟨found.1, found.2.1, found.2.2, rfl⟩
  | error failure =>
      rw [hscored] at hends
      cases hends

/-- Without specs no hit has a log. -/
theorem search_unlogged (hbuilt : e.Built) (haccepted : request.Accepted)
    (hlogs : request.logs = []) (hsearch : (e.search request).2 = .ok response)
    (hhit : hit ∈ response.hits) : hit.logs = {} := by
  obtain ⟨last, hrun⟩ := track_eq_ok hsearch
  obtain ⟨parts, after, candidates, fetched, hparts, hscored, hfetched, rfl⟩ :=
    response_yields ⟨_, _, hrun⟩
  obtain ⟨hits', hmem, hin⟩ := List.mem_flatten.mp ((SearchHit.sort_perm _).mem_iff.mp hhit)
  obtain ⟨part, hpart, hfetch⟩ := forall₂_mem hfetched.flip hmem
  obtain ⟨r, hits, -, hmember, hr, hscore, -⟩ := scored_part hparts hscored hpart
  obtain ⟨shown, hlog, hshown⟩ := fetch_yields hfetch
  have hnone : part.2.2.loggers = [] := by
    rw [(score_yields (hbuilt _ hmember) (ofRequest_fresh haccepted hr) hscore).1]
    refine List.eq_nil_iff_forall_not_mem.mpr fun logger hlogger => ?_
    obtain ⟨spec, hspec, -⟩ := (ofRequest_loggers hr logger).mp hlogger
    rw [hlogs] at hspec
    cases hspec
  have hsame : shown = hits' := by
    unfold ShardRequest.log at hlog
    rw [hnone] at hlog
    exact yields_pure hlog
  obtain ⟨best, hbest, hshows⟩ := forall₂_mem hshown.flip (hsame ▸ hin)
  have hcandidate := (SearchHit.sort_perm candidates).mem_iff.mp
    (List.mem_of_mem_take (List.mem_filter.mp hbest).1)
  obtain ⟨-, hbare⟩ := (scoreParts_places hscored).2 best hcandidate
  rw [hshows]
  exact congrArg SearchHit.logs hbare.symm

/-- **The logs of a hit** are those of the loggers of its shard: which of them there are,
    and what they consist of. -/
theorem Traced.logs {searcher : Searcher} {r r' : ShardRequest}
    (h : Traced e request searcher r r' hit) (haccepted : request.Accepted)
    (hnames : (r'.loggers.map (·.name)).Nodup) (hloggers : r'.loggers ≠ []) :
    (∀ logger ∈ r'.loggers, ∀ q, r'.queryOf? logger.target = some q →
      ((hit.logs[logger.name]?).isSome = true ↔ (r'.Replays → r'.Keeps logger.target hit.doc)) ∧
      ∀ log, hit.logs[logger.name]? = some log → ∃ extra, q.features.Logs extra log ∧
        (r'.Replays ∨ r'.Keeps logger.target hit.doc ∨ r'.Follows logger → extra = none)) ∧
    ∀ name : String, (hit.logs[name]?).isSome = true →
      ∃ logger ∈ r'.loggers, logger.name = name := by
  obtain ⟨hits, hscore, hdoc⟩ := h.scored
  have hfresh := ofRequest_fresh haccepted h.part
  have hfits := ofRequest_fits haccepted h.part
  obtain ⟨docs, hholds⟩ := h.built.holds
  obtain ⟨numbers, j, recorders, hnodup, hj, hrecorders, hattached⟩ := h.logged hloggers
  obtain ⟨hsome, hwritten⟩ := recorders_written hholds hnodup hj
    ((score_keeps hholds hfresh hfits hscore).1 _ hdoc)
    (ready_of_score h.built hfresh hfits hscore).of_under hnames
    (length_kept_of_score h.built hfresh hscore) hrecorders
  refine ⟨fun logger hlogger q hq => ?_, fun name hname => ?_⟩
  · -- no other logger has the name, so a recorder under it is of this one
    have hown : ∀ finished, (logger.name, finished) ∈ recorders →
        r'.Written logger q j hit.doc finished := by
      intro finished hin
      obtain ⟨other, hother, q', hq', hname, hwrites⟩ := hwritten _ hin
      obtain rfl : logger = other := List.inj_on_of_nodup_map hnames hlogger hother hname
      obtain rfl : q = q' := Option.some.inj (hq.symm.trans hq')
      exact hwrites
    refine ⟨⟨fun hlogged => ?_, fun hkeeps => ?_⟩, fun log hlog => ?_⟩
    · obtain ⟨log, hlog⟩ := Option.isSome_iff_exists.mp hlogged
      obtain ⟨finished, hin, hentry⟩ := (hattached _ log).1 hlog
      exact (hown finished hin).present.mp ⟨log, hentry⟩
    · have hfound : (r'.found? logger).isSome = true := by
        obtain ⟨slot, hslot, hranks⟩ := Option.bind_eq_some_iff.mp hq
        unfold found?
        rw [hslot, Option.bind_some, hranks]
        rfl
      obtain ⟨finished, hin⟩ := hsome logger hlogger hfound
      obtain ⟨log, hentry⟩ := (hown finished hin).present.mpr hkeeps
      exact (hattached _ log).2 ⟨finished, hin, hentry⟩
    · obtain ⟨finished, hin, hentry⟩ := (hattached _ log).1 hlog
      exact (hown finished hin).entries log hentry
  · obtain ⟨log, hlog⟩ := Option.isSome_iff_exists.mp hname
    obtain ⟨finished, hin, -⟩ := (hattached name log).1 hlog
    obtain ⟨logger, hlogger, -, -, hname, -⟩ := hwritten _ hin
    exact ⟨logger, hlogger, hname.symm⟩

/-- **Which hits have which logs.**  Every hit of a search was logged by the part of the
    request for its shard, either from scores that were kept while ranking or by scoring
    again.  It has a log for each spec of a named query, and for each spec of a rescore
    stage unless logs are replayed and its document was not in the window of the stage.
    The log has an entry for each feature of the query that the spec points at, and one
    more at most for what the features left beside their values, which replayed scores
    never do.  No other name has a log. -/
theorem hits_logged (hbuilt : e.Built) (haccepted : request.Accepted)
    (hspecs : LogSpec.check request.logs = .ok request.logs)
    (hnames : (request.logs.map (·.loggerName)).Nodup)
    (hsearch : (e.search request).2 = .ok response) (hhit : hit ∈ response.hits) :
    ∃ parts after candidates shard r r',
      (e.track (e.scored request)).2 = .ok (parts, after, candidates) ∧
      parts[hit.shard]? = some (hit.shard, shard, r) ∧
      after[hit.shard]? = some (hit.shard, shard, r') ∧
      (∀ spec ∈ request.logs, ∃ logger q,
        resolve r.queries r.rescores spec = .ok (some logger) ∧
        r.queryOf? logger.target = some q ∧
        (spec.namedQuery.isSome = true → (hit.logs[spec.loggerName]?).isSome = true) ∧
        (∀ place, spec.rescoreIndex = some place →
          ((hit.logs[spec.loggerName]?).isSome = true ↔ (r'.Replays →
            r.InWindow ⟨shard, e.globalOf request parts⟩ (e.settings.under hit.shard) place
              hit.doc))) ∧
        ∀ log, hit.logs[spec.loggerName]? = some log → ∃ extra, q.features.Logs extra log ∧
          (r'.Replays ∨ r'.Keeps logger.target hit.doc ∨ r'.Follows logger → extra = none)) ∧
      ∀ name : String, (hit.logs[name]?).isSome = true →
        ∃ spec ∈ request.logs, spec.loggerName = name := by
  have hclear := LogSpec.check_eq_ok hspecs
  obtain ⟨parts, after, candidates, hscored⟩ := scored_of_search hbuilt haccepted hsearch
  obtain ⟨shard, r, r', hpart, hafter, htraced⟩ :=
    search_hit hbuilt haccepted hsearch hscored hhit
  refine ⟨parts, after, candidates, shard, r, r', hscored, hpart, hafter, ?_⟩
  by_cases hlogs : request.logs = []
  · rw [hlogs, search_unlogged hbuilt haccepted hlogs hsearch hhit]
    refine ⟨List.forall_mem_nil _, fun name hname => ?_⟩
    rw [Std.TreeMap.getElem?_emptyc] at hname
    cases hname
  obtain ⟨hits, hscore, hdoc⟩ := htraced.scored
  have hfresh := ofRequest_fresh haccepted htraced.part
  have hfits := ofRequest_fits haccepted htraced.part
  obtain ⟨docs, hholds⟩ := Shard.Built.holds htraced.built
  have hloggers : r'.loggers = r.loggers := (score_yields htraced.built hfresh hscore).1
  have hqueries := score_queries htraced.built hscore
  have hunique : (r'.loggers.map (·.name)).Nodup := by
    rw [hloggers, ofRequest_names htraced.part hclear]
    exact hnames
  have hsome : r'.loggers ≠ [] := by
    obtain ⟨spec, hspec⟩ := List.exists_mem_of_ne_nil _ hlogs
    obtain ⟨logger, -, -, hlogger, -⟩ := ofRequest_clear htraced.part hclear hspec
    exact List.ne_nil_of_mem (hloggers ▸ hlogger)
  obtain ⟨hall, hothers⟩ := htraced.logs haccepted hunique hsome
  refine ⟨fun spec hspec => ?_, fun name hname => ?_⟩
  · obtain ⟨logger, q, hresolve, hmem, hq, hpoints⟩ := ofRequest_clear htraced.part hclear hspec
    rw [← hloggers] at hmem
    have hq' : r'.queryOf? logger.target = some q := (hqueries logger.target).trans hq
    obtain ⟨hpresent, hentries⟩ := hall logger hmem q hq'
    rw [(resolve_eq_ok hresolve).1] at hpresent hentries
    have hkeeps := fun hreplays : r'.Replays =>
      hreplays.keeps_iff hholds hfresh hfits hscore hmem hq' hdoc
    refine ⟨logger, q, hresolve, hq, fun hnamed => ?_, fun place hplace => ?_, hentries⟩
    · exact hpresent.mpr fun hreplays => (hkeeps hreplays).mpr fun place htarget =>
        absurd htarget (hpoints.ne_stage hnamed place)
    · rw [hpoints.eq_stage hplace] at hpresent hkeeps
      refine hpresent.trans (forall_congr' fun hreplays => (hkeeps hreplays).trans ?_)
      constructor
      · exact fun h => h place rfl
      · intro h other hother
        rw [← LogTarget.stage.inj hother]
        exact h
  · obtain ⟨logger, hmem, hname⟩ := hothers name hname
    obtain ⟨spec, hspec, hresolve⟩ := (ofRequest_loggers htraced.part logger).mp (hloggers ▸ hmem)
    exact ⟨spec, hspec, (resolve_eq_ok hresolve).1.symm.trans hname⟩

/-- A query and a rescore stage that both keep the score of the one document: it has a
    log for each of them, and no other. -/
theorem hits_logged_two :
    let model : Model := ⟨"m", ⟨"m", [.prebuilt "two" (.constant 2.0)]⟩, .linear "m" [1.0] 0.0, 0⟩
    let e : Engine := { shards := #[(Shard.empty.add "a" [] 1).1] }
    let request : SearchRequest := {
      queries := [(some "q", .byModel model [] (some true))]
      rescores := [.query (.byModel model [] (some true)) 1.0 1.0 1]
      logs := [{ name := some "first", namedQuery := some "q" },
        { name := some "second", rescoreIndex := some 0 }] }
    let log : List LogEntry := [⟨"two", some (.score 2.0)⟩]
    let logs : Std.TreeMap String (List LogEntry) :=
      (Std.TreeMap.insert {} "first" log).insert "second" log
    let hit : SearchHit := { key := "a", shard := 0, doc := 1, score := 4.0, logs }
    (e.search request).2 = .ok ⟨1, [hit]⟩ ∧ (hit.logs["first"]?).isSome = true ∧
      (∃ extra, model.features.Logs extra log) ∧
      ∀ name : String, (hit.logs[name]?).isSome = true → name = "first" ∨ name = "second" := by
  intro model e request log logs hit
  let q : RankingQuery := ⟨[.constant 2.0], model.features, model.ranker, 0⟩
  let shard := (Shard.empty.add "a" [] 1).1
  let slot : Slot := { query := .ranking q, scores := some .empty }
  let after : Slot := { slot with
    scores := some (ScoreCache.empty.insertOnce 1 [2.0])
    weights := (q.weight ⟨shard, none⟩ .empty).1 }
  let r : ShardRequest := ⟨none, [{ slot with name := some "q" }], [.query slot 1.0 1.0 1],
    [⟨"first", false, .query 0⟩, ⟨"second", false, .stage 0⟩]⟩
  let r' : ShardRequest := { r with
    queries := [{ after with name := some "q" }], rescores := [.query after 1.0 1.0 1] }
  let candidate : SearchHit := { hit with logs := {} }
  have hscored : (ExceptT.run (e.scored request)).run e.counters
      = (.ok ([(0, shard, r)], [(0, shard, r')], [candidate]), { total := 2 }) := by
    subst candidate r' r after slot shard q hit logs log request e model
    with_unfolding_all rfl
  have hfetched : (ExceptT.run (e.fetchParts request [(0, shard, r)] [(0, shard, r')]
        [candidate])).run { total := 2 }
      = (.ok [[hit]], { total := 2 }) := by
    unfold fetchParts
    rw [SearchHit.sort_singleton]
    subst candidate r' r after slot shard q hit logs log request e model
    with_unfolding_all rfl
  have hsearch : (e.search request).2 = .ok ⟨1, SearchHit.sort [hit]⟩ :=
    search_ok hscored hfetched
  rw [SearchHit.sort_singleton] at hsearch
  have hbuilt : e.Built := Built.single (Shard.Built.empty.add "a" [] 1)
  have haccepted : request.Accepted := by
    refine ⟨fun x hmem => ?_, fun stage hmem query hquery => ?_⟩
    · rw [List.mem_singleton.mp hmem]
      rfl
    · rw [List.mem_singleton.mp hmem] at hquery
      rw [← Option.some.inj hquery]
      rfl
  obtain ⟨parts, after', candidates, shard', r₀, r₁, hscored', hpart, -, hspecs, hnames⟩ :=
    hits_logged hbuilt haccepted (show LogSpec.check request.logs = _ from rfl) (by decide) hsearch
      (List.mem_singleton_self hit)
  have hfirst := hspecs _ List.mem_cons_self
  obtain ⟨logger, q', hresolve, hq, hnamed, -, hlogs⟩ := hfirst
  refine ⟨hsearch, hnamed rfl, ?_, fun name hname => ?_⟩
  · have hparts : ([(0, shard, r)], [(0, shard, r')], [candidate]) = (parts, after', candidates) :=
      Except.ok.inj ((congrArg Prod.fst hscored).symm.trans hscored')
    obtain ⟨hhere, -⟩ := Prod.mk.inj hparts
    rw [← hhere] at hpart
    obtain ⟨-, hr⟩ := Prod.mk.inj (Prod.mk.inj (Option.some.inj hpart)).2
    rw [← hr] at hresolve hq
    rw [← Option.some.inj (Except.ok.inj hresolve)] at hq
    obtain ⟨extra, hshape, -⟩ := hlogs log rfl
    rw [← Option.some.inj hq] at hshape
    exact ⟨extra, hshape⟩
  · obtain ⟨spec, hspec, rfl⟩ := hnames name hname
    rcases List.mem_cons.mp hspec with rfl | hspec
    · exact .inl rfl
    · rw [List.mem_singleton.mp hspec]
      exact .inr rfl

end Engine

end FeatureRank
