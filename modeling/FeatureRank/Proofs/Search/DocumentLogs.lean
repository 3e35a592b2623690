import FeatureRank.Proofs.Search.SameDocuments

/-! # Logs, document by document

    The log of a hit is read off the document of the hit, whichever way it is
    written: from the scores that were kept for the document
    (`ShardRequest.replayLogs_writes`), or by scoring the document again
    (`ShardRequest.rescoreLogs_ends`).  A recorder that has written the log of each
    document of a list gives it to the hit of the document, and to no other
    (`ShardRequest.attach_writes`). -/

namespace FeatureRank

open Tracked

/-! ## Recorders that are done -/

/-- A recorder whose logs are, hit by hit, what a function says of the documents. -/
def LogRecorder.Writes (finished : LogRecorder) (numbers : List Nat)
    (log : Nat → List LogEntry) : Prop :=
  finished.take.1.Perm (numbers.zipIdx.map fun x => (x.2, log x.1))

/-- A hit with more logs, in order; a log replaces an older one of its name. -/
def SearchHit.withLogs (hit : SearchHit) (logs : List (String × List LogEntry)) : SearchHit :=
  { hit with logs := logs.foldl (fun logs (name, log) => logs.insert name log) hit.logs }

/-- The item of an index, with the index. -/
theorem filter_zipIdx {α : Type} (items : List α) :
    ∀ first k : Nat, (items.zipIdx first).filter (·.2 == first + k)
      = (items[k]?).toList.map fun item => (item, first + k) := by
  induction items with
  | nil => exact fun _ _ => rfl
  | cons head rest ih =>
      intro first k
      rw [List.zipIdx_cons]
      cases k with
      | zero =>
          have hrest : (rest.zipIdx (first + 1)).filter (·.2 == first + 0) = [] := by
            refine List.filter_eq_nil_iff.mpr ?_
            intro x hx hsame
            have := List.le_snd_of_mem_zipIdx hx
            have := beq_iff_eq.mp hsame
            omega
          have hhead : (fun x : α × Nat => x.2 == first + 0) (head, first) = true :=
            beq_self_eq_true first
          rw [List.filter_cons_of_pos (p := fun x : α × Nat => x.2 == first + 0) hhead, hrest]
          rfl
      | succ k =>
          have hhead : ¬(fun x : α × Nat => x.2 == first + (k + 1)) (head, first) = true := by
            intro hsame
            have := beq_iff_eq.mp hsame
            omega
          have hshift : first + (k + 1) = first + 1 + k := by omega
          rw [List.filter_cons_of_neg (p := fun x : α × Nat => x.2 == first + (k + 1)) hhead, hshift,
            ih (first + 1) k]
          rfl

namespace ShardRequest

/-- What attaching logs does to one hit: its own logs are inserted, in order. -/
theorem getElem?_attach (name : String) (logs : List (Nat × List LogEntry)) (k : Nat) :
    ∀ hits : List SearchHit, (attach name logs hits)[k]? = (hits[k]?).map fun hit =>
      hit.withLogs ((logs.filter (·.1 == k)).map fun x => (name, x.2)) := by
  induction logs with
  | nil =>
      intro hits
      show hits[k]? = (hits[k]?).map id
      rw [Option.map_id_fun, id]
  | cons first rest ih =>
      intro hits
      obtain ⟨j, log⟩ := first
      show (attach name rest (hits.modify j fun h => { h with logs := h.logs.insert name log }))[k]? = _
      rw [ih, List.getElem?_modify, Option.map_eq_map, Option.map_map]
      by_cases hj : j = k
      · have hk : (fun x : Nat × List LogEntry => x.1 == k) (j, log) = true := beq_iff_eq.mpr hj
        rw [List.filter_cons_of_pos (p := fun x : Nat × List LogEntry => x.1 == k) hk]
        simp only [if_pos hj]
        rfl
      · have hk : ¬(fun x : Nat × List LogEntry => x.1 == k) (j, log) = true :=
          fun h => hj (beq_iff_eq.mp h)
        rw [List.filter_cons_of_neg (p := fun x : Nat × List LogEntry => x.1 == k) hk]
        simp only [if_neg hj]
        rfl

/-- **Attaching the logs of documents** gives every hit the log of its own. -/
theorem attach_writes {name : String} {finished : LogRecorder} {hits : List SearchHit}
    {log : Nat → List LogEntry} (h : finished.Writes (hits.map (·.doc)) log) :
    attach name finished.take.1 hits = hits.map fun hit => hit.withLogs [(name, log hit.doc)] := by
  refine List.ext_getElem? fun k => ?_
  rw [getElem?_attach, List.getElem?_map]
  cases hk : hits[k]? with
  | none => rfl
  | some hit =>
      have hitem : ((hits.map (·.doc)).zipIdx.filter (·.2 == k)) = [(hit.doc, k)] := by
        have := filter_zipIdx (hits.map (·.doc)) 0 k
        rw [Nat.zero_add, List.getElem?_map, hk] at this
        exact this
      have hown := h.filter (·.1 == k)
      rw [List.filter_map, show (fun x : Nat × List LogEntry => x.1 == k) ∘
        (fun x : Nat × Nat => (x.2, log x.1)) = fun x => x.2 == k from rfl, hitem] at hown
      rw [List.perm_singleton.mp hown]
      rfl

theorem attachAll_writes {recorders : List (String × LogRecorder)}
    {logs : List (String × (Nat → List LogEntry))} :
    ∀ {hits : List SearchHit}, List.Forall₂ (fun recorder log => recorder.1 = log.1 ∧
        recorder.2.Writes (hits.map (·.doc)) log.2) recorders logs →
      recorders.foldl (fun hits (name, recorder) => attach name recorder.take.1 hits) hits
        = hits.map fun hit => hit.withLogs (logs.map fun log => (log.1, log.2 hit.doc)) := by
  induction recorders generalizing logs with
  | nil =>
      intro hits h
      cases h
      exact (List.map_id' hits).symm
  | cons first rest ih =>
      intro hits h
      cases h with
      | @cons _ log _ others hfirst hrest =>
          obtain ⟨name, finished⟩ := first
          obtain ⟨hname, hwrites⟩ := hfirst
          obtain rfl : name = log.1 := hname
          have hattach : attach log.1 finished.take.1 hits = _ := attach_writes hwrites
          have hdocs : (hits.map fun hit => hit.withLogs [(log.1, log.2 hit.doc)]).map (·.doc)
              = hits.map (·.doc) := by
            rw [List.map_map]
            rfl
          rw [List.foldl_cons]
          show rest.foldl _ (attach log.1 finished.take.1 hits) = _
          rw [hattach, ih (by rw [hdocs]; exact hrest), List.map_map]
          rfl

/-! ## Replaying -/

/-- The entries of a document whose scores were kept. -/
def entriesKept (r : LogRecorder) (kept : List Float32) : List LogEntry :=
  r.entries ⟨0, keptValues r.featureCount kept, none⟩

/-- **A replay** writes the kept scores of every document. -/
theorem replayLogs_writes (logger : Logger) (q : RankingQuery) {scores : Option ScoreCache}
    {numbers : List Nat} {kept : Nat → List Float32}
    (hkept : ∀ n ∈ numbers, scores.bind (·.get? n) = some (kept n) ∧
      (kept n).length = q.features.size) :
    ∃ finished, replayLogs (recorder logger q) scores numbers = .ok finished ∧
      finished.Writes numbers fun n => entriesKept (recorder logger q) (kept n) := by
  have hitems : ∀ (items : List (Nat × Nat)) (r : LogRecorder),
      (∀ x ∈ items, scores.bind (·.get? x.1) = some (kept x.1) ∧
        (kept x.1).length = r.featureCount) →
      ∃ finished, items.foldlM (replayDoc scores) r = .ok finished ∧
        finished.take.1 = r.take.1 ++ items.map fun x => (x.2, entriesKept r (kept x.1)) := by
    intro items
    induction items with
    | nil => exact fun r _ => ⟨r, rfl, (List.append_nil _).symm⟩
    | cons item rest ih =>
        intro r h
        obtain ⟨⟨hget, hlength⟩, hrest⟩ := List.forall_mem_cons.mp h
        let log : OpenLog := ⟨item.2, keptValues r.featureCount (kept item.1), none⟩
        have hcount : (r.close.withOpen log).featureCount = r.featureCount :=
          congrArg List.length r.features_close
        have hentries : entriesKept (r.close.withOpen log) = entriesKept r := by
          funext kept
          unfold entriesKept
          rw [hcount]
          exact congrFun r.entries_close _
        obtain ⟨finished, hfinished, htake⟩ := ih (r.close.withOpen log) (by
          intro x hx
          rw [hcount]
          exact hrest x hx)
        refine ⟨finished, bind_eq_ok.mpr ⟨_, replayDoc_eq hget hlength, hfinished⟩, ?_⟩
        rw [htake, LogRecorder.take_withOpen, LogRecorder.entries_close, hentries,
          List.append_assoc]
        rfl
  obtain ⟨finished, hfinished, htake⟩ := hitems numbers.zipIdx (recorder logger q) (by
    intro x hx
    have hn : x.1 ∈ numbers := List.fst_mem_of_mem_zipIdx hx
    refine ⟨(hkept x.1 hn).1, (hkept x.1 hn).2.trans ?_⟩
    exact (List.length_map _).symm)
  exact ⟨finished, hfinished, List.Perm.of_eq htake⟩

end ShardRequest

/-! ## Scoring again -/

/-- The weights that a cache holds for the queries of features. -/
def WeightCache.held (c : WeightCache) (emptyShard : Bool) (features : Nat)
    (queries : List FeatureQuery) : List Weight :=
  queries.filterMap fun q =>
    (q.bind features).toOption.bind fun tied => c.get? (tied.canonical emptyShard)

theorem WeightCache.held_of_holds {c : WeightCache} {emptyShard : Bool} {features : Nat}
    {queries : List FeatureQuery} {ws : List Weight}
    (h : List.Forall₂ (c.Holds emptyShard features) queries ws) :
    c.held emptyShard features queries = ws := by
  induction h with
  | nil => rfl
  | cons hfirst _ ih =>
      obtain ⟨tied, htied, hget⟩ := hfirst
      unfold held
      rw [List.filterMap_cons_some (by rw [htied]; exact hget)]
      exact congrArg _ ih

/-- Visits to documents whose scores are held change no cache. -/
theorem RankingWeight.visitCacheOn_of_held (w : RankingWeight)
    (docAt : Nat → Option (List TermId)) {cache : Option ScoreCache}
    {places : List (Nat × Nat)}
    (h : ∀ x ∈ places, (cache.bind (·.get? x.1)).isSome = true) :
    (QueryWeight.ranking w).visitCacheOn docAt cache places = cache := by
  induction places with
  | nil => rfl
  | cons first rest ih =>
      obtain ⟨hfirst, hrest⟩ := List.forall_mem_cons.mp h
      have hstep : ((docAt first.1).filter ((QueryWeight.ranking w).matchesDoc ·)).elim cache
          ((QueryWeight.ranking w).keptOn · first.1 cache) = cache := by
        cases (docAt first.1).filter ((QueryWeight.ranking w).matchesDoc ·) with
        | none => rfl
        | some doc => exact w.keptOn_of_held doc hfirst
      unfold QueryWeight.visitCacheOn
      rw [List.foldl_cons, hstep]
      exact ih hrest

/-- Visits to documents of a shard by a weight that matches all. -/
theorem RankingWeight.visitsOn_all (w : RankingWeight) {docAt : Nat → Option (List TermId)}
    (cache : Option ScoreCache) {places : List (Nat × Nat)}
    (h : ∀ x ∈ places, (docAt x.1).isSome = true) :
    (QueryWeight.ranking w).visitsOn docAt cache places = places.map fun x =>
      (x.2, w.scoredOn ((docAt x.1).getD []) (cache.bind (·.get? x.1))) := by
  unfold QueryWeight.visitsOn
  rw [← List.filterMap_eq_map]
  refine List.filterMap_congr fun x hx => ?_
  obtain ⟨doc, hdoc⟩ := Option.isSome_iff_exists.mp (h x hx)
  show ((docAt x.1).filter _).map _
    = some (x.2, w.scoredOn ((docAt x.1).getD []) (cache.bind (·.get? x.1)))
  rw [hdoc]
  rfl

namespace ShardRequest

/-- Keeping the scores that are kept already. -/
theorem keepScores_self {r : ShardRequest} {target : LogTarget} {slot : Slot}
    (h : r.slotOf? target = some slot) : r.keepScores slot.scores target = r := by
  have hmodify : ∀ {α : Type} (items : List α) (place : Nat) (f : α → α),
      (∀ item, items[place]? = some item → f item = item) → items.modify place f = items := by
    intro α items place f hf
    refine List.ext_getElem? fun i => ?_
    rw [List.getElem?_modify]
    cases hi : items[i]? with
    | none => rfl
    | some item =>
        by_cases hplace : place = i
        · rw [Option.map_eq_map, Option.map_some, if_pos hplace, hf item (hplace ▸ hi)]
        · rw [Option.map_eq_map, Option.map_some, if_neg hplace]
  cases target with
  | query place =>
      have hsame := hmodify r.queries place ({ · with scores := slot.scores }) fun item hitem => by
        obtain rfl : item = slot := Option.some.inj (hitem.symm.trans h)
        rfl
      exact congrArg (fun queries => { r with queries }) hsame
  | stage place =>
      refine congrArg (fun rescores => { r with rescores }) (hmodify r.rescores place _ ?_)
      intro stage hstage
      obtain ⟨stage', hstage', hquery⟩ := Option.bind_eq_some_iff.mp h
      obtain rfl : stage = stage' := Option.some.inj (hstage.symm.trans hstage')
      cases stage with
      | scale factor window => rfl
      | query slot' queryWeight rescoreWeight window =>
          obtain rfl : slot' = slot := Option.some.inj hquery
          rfl

/-- The ranking query that a log records, with its slot. -/
def found? (r : ShardRequest) (logger : Logger) : Option (Slot × RankingQuery) :=
  (r.slotOf? logger.target).bind fun slot => slot.query.ranking?.map ((slot, ·))

theorem logged_eq (r : ShardRequest) :
    r.logged = r.loggers.filterMap fun logger =>
      (r.found? logger).map fun found => (logger, found) := by
  unfold logged found?
  refine List.filterMap_congr fun logger _ => ?_
  cases r.slotOf? logger.target with
  | none => rfl
  | some slot =>
      show (slot.query.ranking?).bind _ = (slot.query.ranking?.map _).map _
      cases slot.query.ranking? <;> rfl

theorem found?_eq_some {r : ShardRequest} {logger : Logger} {slot : Slot} {q : RankingQuery}
    (h : r.found? logger = some (slot, q)) :
    r.slotOf? logger.target = some slot ∧ slot.query.ranking? = some q := by
  obtain ⟨slot', hslot, hmap⟩ := Option.bind_eq_some_iff.mp h
  obtain ⟨q', hq, hpair⟩ := Option.map_eq_some_iff.mp hmap
  obtain ⟨rfl, rfl⟩ := Prod.mk.inj hpair
  exact ⟨hslot, hq⟩

/-- The entries of a document that is scored again for a log, from the scores that
    were kept for it if there are any. -/
def entriesAgain (logger : Logger) (q : RankingQuery) (ws : List Weight) (doc : List TermId)
    (kept : Option (List Float32)) : List LogEntry :=
  (recorder logger q).entriesFor ((logWeight q ws).scoredOn doc kept)

/-- A score cache, or an empty one for none, holds of a document what was kept for it. -/
theorem get?_getD_empty (cache : Option ScoreCache) (n : Nat) :
    (some (cache.getD .empty)).bind (·.get? n) = cache.bind (·.get? n) := by
  cases cache <;> rfl

/-- **One log by scoring again** has what the documents score. -/
theorem visit_records {docs : List IndexedDocument} {s : Shard} (hs : s.Holds docs)
    (logger : Logger) {q : RankingQuery} {ws : List Weight} (hcount : ws.length = q.features.size)
    {cache : Option ScoreCache} (hfits : ScoreCache.Fits q.features.size cache)
    {numbers : List Nat} (hnumbers : numbers.Nodup) :
    ∃ visits finished, (QueryWeight.ranking (logWeight q ws)).visit s numbers cache
        = .ok (visits, (QueryWeight.ranking (logWeight q ws)).visitCacheOn (Shard.termsAt docs) cache
            (RankingWeight.placesOf numbers)) ∧
      (recorder logger q).recordVisits visits = .ok finished ∧
      finished.take.1 = ((QueryWeight.ranking (logWeight q ws)).visitsOn (Shard.termsAt docs) cache
        (RankingWeight.placesOf numbers)).map
          fun x => (x.1, (recorder logger q).entriesFor x.2) := by
  have hweight : (QueryWeight.ranking (logWeight q ws)).Fits cache := ⟨Nat.le_of_eq hcount, hfits⟩
  obtain ⟨visits, hvisits, herased⟩ := hs.visit hweight hnumbers
  have hfeatures : ∀ x ∈ visits, ∃ v, x.2.2.features = some v ∧
      v.size = (recorder logger q).featureCount := by
    intro x hx
    have hx' : (x.1, x.2.2) ∈ visits.map fun v => (v.1, v.2.2) :=
      List.mem_map.mpr ⟨x, hx, rfl⟩
    rw [herased] at hx'
    obtain ⟨y, -, hy⟩ := List.mem_filterMap.mp hx'
    obtain ⟨doc, -, hdoc⟩ := Option.map_eq_some_iff.mp hy
    rw [← (Prod.mk.inj hdoc).2]
    refine ⟨_, rfl, (RankingWeight.size_gatheredOn _ _ _).trans ?_⟩
    exact (List.length_map _).symm
  obtain ⟨finished, hrecord, htake⟩ := LogRecorder.recordVisits_eq visits _ hfeatures
  refine ⟨visits, finished, hvisits, hrecord, ?_⟩
  rw [htake, ← herased, List.map_map]
  rfl

section

variable {docs : List IndexedDocument} {s : Shard} {settings : Settings} {numbers : List Nat}
  {weights : WeightCache} {r : ShardRequest}

/-- **The first of several logs by scoring again** has what the documents score from
    what was kept for them, and the others are written by a request that still fits. -/
theorem rescoreLogs_cons_eq (hs : s.Holds docs) (henabled : settings.enabled = true)
    (hnumbers : numbers.Nodup) (hr : r.Fits) {first : Logger} {slot : Slot} {q : RankingQuery}
    (hfound : r.found? first = some (slot, q)) {ws : List Weight}
    (hholds : List.Forall₂
      (weights.Holds (Searcher.isEmpty { shard := s }) q.features.size) q.queries ws)
    (rest : List Logger) :
    ∃ kept finished,
      rescoreLogs { shard := s } settings numbers (first :: rest) weights r = (do
        return (first.name, finished) :: (← rescoreLogs { shard := s } settings numbers rest
          weights (r.afterLog first.target slot kept))) ∧
      (r.afterLog first.target slot kept).Fits ∧
      kept = (QueryWeight.ranking (logWeight q ws)).visitCacheOn (Shard.termsAt docs)
        (some (slot.scores.getD .empty)) (RankingWeight.placesOf numbers) ∧
      finished.take.1 = ((QueryWeight.ranking (logWeight q ws)).visitsOn (Shard.termsAt docs)
        (some (slot.scores.getD .empty)) (RankingWeight.placesOf numbers)).map
          fun x => (x.1, (recorder first q).entriesFor x.2) := by
  have hsome : (r.slotOf? first.target).bind
      (fun slot => slot.query.ranking?.map ((slot, ·))) = some (slot, q) := hfound
  obtain ⟨hslot, hq⟩ := found?_eq_some hfound
  obtain ⟨hsized, hfits⟩ := (fits_ranking? hq slot.scores).mp (hr.slotOf? hslot)
  have hcount : ws.length = q.features.size := by rw [← hholds.length_eq, hsized.2]
  obtain ⟨visits, finished, hvisits, hrecord, htake⟩ :=
    visit_records hs first hcount hfits.getD_empty hnumbers
  have hweight : (QueryWeight.ranking (logWeight q ws)).Fits (some (slot.scores.getD .empty)) :=
    ⟨Nat.le_of_eq hcount, hfits.getD_empty⟩
  refine ⟨_, finished, ?_, hr.afterLog hslot hq (hweight.visitCacheOn _).2, rfl, htake⟩
  have hweighted := weighted_of_holds settings (some (slot.scores.getD .empty)) hholds
  rw [henabled, if_pos rfl] at hweighted
  rw [rescoreLogs]
  unfold logWeight at hvisits
  simp only [hsome, hweighted, pure_bind]
  rw [hvisits]
  show Tracked.ofChecked ((recorder first q).recordVisits visits) >>= _ = _
  rw [hrecord]
  rfl

/-- **One more log by scoring again** writes what each document scores, and leaves the
    request as it was. -/
theorem rescoreLogs_cons_ends (hs : s.Holds docs) (henabled : settings.enabled = true)
    (hnumbers : numbers.Nodup) (hin : ∀ n ∈ numbers, (Shard.termsAt docs n).isSome = true)
    (hr : r.Fits) {first : Logger} {slot : Slot} {q : RankingQuery}
    (hfound : r.found? first = some (slot, q))
    (hcovers : Covers weights (Searcher.isEmpty { shard := s }) q)
    (hheld : slot.scores.isSome = true →
      ∀ n ∈ numbers, (slot.scores.bind (·.get? n)).isSome = true)
    {rest : List Logger} {recorders : List (String × LogRecorder)}
    (hrest : (rescoreLogs { shard := s } settings numbers rest weights r).Ends (.ok recorders)) :
    ∃ finished, (rescoreLogs { shard := s } settings numbers (first :: rest) weights r).Ends
        (.ok ((first.name, finished) :: recorders)) ∧
      finished.Writes numbers fun n => entriesAgain first q
        (weights.held (Searcher.isEmpty { shard := s }) q.features.size q.queries)
        ((Shard.termsAt docs n).getD []) (slot.scores.bind (·.get? n)) := by
  obtain ⟨ws, hholds⟩ := hcovers
  obtain ⟨kept, finished, hlogs, -, hkept, htake⟩ :=
    rescoreLogs_cons_eq hs henabled hnumbers hr hfound hholds rest
  have hplaces : (RankingWeight.placesOf numbers).Perm numbers.zipIdx :=
    List.mergeSort_perm numbers.zipIdx _
  have hmem : ∀ x ∈ RankingWeight.placesOf numbers, x.1 ∈ numbers := fun x hx =>
    List.fst_mem_of_mem_zipIdx (hplaces.mem_iff.mp hx)
  refine ⟨finished, ?_, ?_⟩
  -- a cache that held all the documents is as it was
  · have hafter : r.afterLog first.target slot kept = r := by
      unfold afterLog
      split
      · next hsome =>
          have hsame : kept = some (slot.scores.getD .empty) := by
            rw [hkept]
            refine RankingWeight.visitCacheOn_of_held _ _ fun x hx => ?_
            rw [get?_getD_empty]
            exact hheld hsome x.1 (hmem x hx)
          obtain ⟨cache, hcache⟩ := Option.isSome_iff_exists.mp hsome
          rw [hsame, hcache, Option.getD_some, ← hcache]
          exact keepScores_self (found?_eq_some hfound).1
      · rfl
    rw [hlogs, hafter]
    exact hrest.bind (.pure _)
  · unfold LogRecorder.Writes
    rw [htake, RankingWeight.visitsOn_all _ _ fun x hx => hin x.1 (hmem x hx), List.map_map,
      WeightCache.held_of_holds hholds]
    simp only [get?_getD_empty]
    exact hplaces.map _

/-- **Logs by scoring again** write what each document scores, logger by logger. -/
theorem rescoreLogs_ends (hs : s.Holds docs) (henabled : settings.enabled = true)
    (hnumbers : numbers.Nodup) (hin : ∀ n ∈ numbers, (Shard.termsAt docs n).isSome = true)
    (hr : r.Fits) (loggers : List Logger)
    (hcovers : ∀ logger ∈ loggers, ∀ slot q, r.found? logger = some (slot, q) →
      Covers weights (Searcher.isEmpty { shard := s }) q)
    (hheld : ∀ logger ∈ loggers, ∀ slot q, r.found? logger = some (slot, q) →
      slot.scores.isSome = true → ∀ n ∈ numbers, (slot.scores.bind (·.get? n)).isSome = true) :
    ∃ recorders, (rescoreLogs { shard := s } settings numbers loggers weights r).Ends
        (.ok recorders) ∧
      List.Forall₂ (fun recorder log => recorder.1 = log.1 ∧ recorder.2.Writes numbers log.2)
        recorders (loggers.filterMap fun logger => (r.found? logger).map fun found =>
          (logger.name, fun n => entriesAgain logger found.2
            (weights.held (Searcher.isEmpty { shard := s }) found.2.features.size found.2.queries)
            ((Shard.termsAt docs n).getD []) (found.1.scores.bind (·.get? n)))) := by
  induction loggers with
  | nil => exact ⟨[], .pure [], .nil⟩
  | cons first rest ih =>
      obtain ⟨hfirst, hothers⟩ := List.forall_mem_cons.mp hcovers
      obtain ⟨hkept, hkeeps⟩ := List.forall_mem_cons.mp hheld
      obtain ⟨recorders, hends, hwrites⟩ := ih hothers hkeeps
      cases hfound : r.found? first with
      | none =>
          have hnone : (r.slotOf? first.target).bind
              (fun slot => slot.query.ranking?.map ((slot, ·))) = none := hfound
          rw [List.filterMap_cons_none (by rw [hfound]; rfl)]
          unfold rescoreLogs
          rw [hnone]
          exact ⟨recorders, hends, hwrites⟩
      | some found =>
          obtain ⟨finished, hcons, hwritten⟩ := rescoreLogs_cons_ends hs henabled hnumbers hin hr
            hfound (hfirst found.1 found.2 hfound) (hkept found.1 found.2 hfound) hends
          rw [List.filterMap_cons_some (by rw [hfound]; rfl)]
          exact ⟨_, hcons, .cons ⟨rfl, hwritten⟩ hwrites⟩

end

end ShardRequest

end FeatureRank
