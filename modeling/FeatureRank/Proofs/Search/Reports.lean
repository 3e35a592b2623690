import FeatureRank.Proofs.Search.Engine

/-! # What logs report — the values that ranking computed

    Logs are written after ranking, by one of two ways.  Where every logged query
    kept its scores they are replayed, and a log reports for each feature the value
    that it had while ranking, if that is a number
    (`Engine.replayed_logs_report_ranking`).

    Otherwise the hits are scored again by a ranker that only logs.  Its vectors
    read `0.0` where no feature matched, whatever the model reads there, so a sum
    over features that did not match may be logged with another value than it had
    while ranking.  A log reports what ranking computed just when no feature of the
    document makes that difference (`Engine.rescored_logs_report_ranking_iff`). -/

namespace FeatureRank

open Tracked

namespace ShardRequest

variable {r : ShardRequest} {searcher : Searcher} {settings : Settings}

/-- The logged queries are the ranking queries that loggers point at. -/
theorem mem_logged {logger : Logger} {slot : Slot} {q : RankingQuery} :
    (logger, slot, q) ∈ r.logged ↔ logger ∈ r.loggers ∧ r.slotOf? logger.target = some slot ∧
      slot.query.ranking? = some q := by
  unfold logged
  rw [List.mem_filterMap]
  constructor
  · rintro ⟨other, hmem, h⟩
    obtain ⟨slot', hslot, h⟩ := Option.bind_eq_some_iff.mp h
    obtain ⟨q', hq, h⟩ := Option.bind_eq_some_iff.mp h
    obtain ⟨hlogger, hpair⟩ := Prod.mk.inj (Option.some.inj h)
    obtain ⟨hsame, hquery⟩ := Prod.mk.inj hpair
    rw [← hlogger, ← hsame, ← hquery]
    exact ⟨hmem, hslot, hq⟩
  · rintro ⟨hmem, hslot, hq⟩
    exact ⟨logger, hmem, Option.bind_eq_some_iff.mpr
      ⟨slot, hslot, Option.bind_eq_some_iff.mpr ⟨q, hq, rfl⟩⟩⟩

/-- A ranked slot keeps the weights that its searcher made. -/
theorem Ranked.weights {target : LogTarget} {slot after : Slot} {q : RankingQuery}
    {w : RankingWeight} (h : Ranked r searcher settings target slot after q w) :
    after.weights.Faithful searcher ∧ after.Prepared searcher.shard q ∧
      List.Forall₂ (after.weights.Holds searcher.isEmpty q.ranker.featureCount) q.queries
        w.weights := by
  obtain ⟨hholds, -, hfaithful, -⟩ := RankingQuery.weight_eq_ok h.made
  exact ⟨hfaithful (WeightCache.Faithful.empty searcher),
    ⟨searcher, .empty, after.weights, w, rfl, h.made, WeightCache.Extends.refl _⟩, hholds⟩

/-- The merge of the weights that one searcher made is of that searcher. -/
theorem mergedWeights_faithful (h : ∀ x ∈ r.logged, x.2.1.weights.Faithful searcher) :
    r.mergedWeights.Faithful searcher := by
  have hfold : ∀ (items : List (Logger × Slot × RankingQuery)) (weights : WeightCache),
      weights.Faithful searcher → (∀ x ∈ items, x.2.1.weights.Faithful searcher) →
      (items.foldl (fun merged x => merged.merge x.2.1.weights) weights).Faithful
        searcher := by
    intro items
    induction items with
    | nil => intro weights hweights _; exact hweights
    | cons item rest ih =>
        intro weights hweights hitems
        exact ih _ (hweights.merge (hitems item List.mem_cons_self))
          fun x hx => hitems x (List.mem_cons_of_mem _ hx)
  exact hfold r.logged .empty (WeightCache.Faithful.empty searcher) h

/-- What is kept of a vector are its values, as far as they are numbers. -/
theorem keptValues_kept {v : FeatureVector} {features i : Nat} (hi : i < features) :
    (keptValues features (v.kept 0 features))[i]? = some ((v.get? i).filter (!·.isNaN)) := by
  have hkept : ((v.kept 0 features).take features)[i]?
      = some ((v.get? i).getD Number.nan32) := by
    rw [List.getElem?_take_of_lt hi, FeatureVector.getElem?_kept hi]
  unfold keptValues
  rw [List.getElem?_map, hkept, Option.map_some]
  cases v.get? i with
  | none => exact congrArg some (if_pos (by decide))
  | some value =>
      rw [Option.getD_some]
      by_cases hnan : value.isNaN = true
      · rw [if_pos hnan, filter_of_isNaN hnan]
      · rw [if_neg hnan, filter_of_not_isNaN hnan]

/-- **A ranked document has one vector and one score**, however often the query
    scores it. -/
theorem Ranked.unique {target : LogTarget} {slot after : Slot} {q : RankingQuery}
    {w : RankingWeight} (h : Ranked r searcher settings target slot after q w) {doc : Nat}
    {a b : Scored} (ha : r.Gives searcher settings target doc a)
    (hb : r.Gives searcher settings target doc b) : a.features = b.features ∧ a.value = b.value := by
  obtain ⟨reader, hreader, i, hi, hia, hdoc, v, hv, hdescribes, hvalue⟩ := h.gives doc a ha
  obtain ⟨reader', hreader', j, hj, hjb, hdoc', u, hu, hdescribes', hvalue'⟩ := h.gives doc b hb
  obtain ⟨hreaders, hinside⟩ := searcher.shard.readers_unique hreader hreader' hi hia hj hjb
    (hdoc.symm.trans hdoc')
  rw [hreaders, hinside] at hdescribes
  rw [hv, hu, hvalue, hvalue', hdescribes.unique hdescribes']
  exact ⟨rfl, rfl⟩

/-- **A replayed log reports a vector that was given**: the values that are numbers,
    and missing values for all others. -/
theorem Ranked.replayed {target : LogTarget} {slot after : Slot} {q : RankingQuery}
    {w : RankingWeight} (h : Ranked r searcher settings target slot after q w)
    (hcount : w.weights.length = q.features.size) {logger : Logger} {docs : List Nat}
    {finished : LogRecorder}
    (hreplay : replayLogs (recorder logger q) after.scores docs = .ok finished) {j doc : Nat}
    (hdoc : docs[j]? = some doc) {log : List LogEntry} (hlog : (j, log) ∈ finished.take.1) :
    ∃ scored v, r.Gives searcher settings target doc scored ∧ scored.features = some v ∧
      ∀ (i : Nat) (name : String), q.features.names[i]? = some name →
        log[i]? = some ⟨name, (recorder logger q).reported ((v.get? i).filter (!·.isNaN))⟩ := by
  have hkept : ∀ doc scores, after.scores.bind (·.get? doc) = some scores →
      ∃ scored v, r.Gives searcher settings target doc scored ∧ scored.features = some v ∧
        scores = v.kept 0 w.weights.length := by
    intro doc scores hget
    obtain ⟨cache, hcache, hget⟩ := Option.bind_eq_some_iff.mp hget
    exact h.kept cache hcache doc scores hget
  have hfeatures : (recorder logger q).featureCount = w.weights.length := by
    rw [hcount]
    exact List.length_map _
  have hfull : ∀ doc scores, after.scores.bind (·.get? doc) = some scores →
      scores.length = (recorder logger q).featureCount := by
    intro doc scores hget
    obtain ⟨-, v, -, -, heq⟩ := hkept doc scores hget
    rw [heq, hfeatures, FeatureVector.kept, List.length_map, List.length_range']
  rcases replayLogs_logs hfull hreplay _ hlog with hnothing | ⟨other, scores, hother, hget, hentries⟩
  · cases hnothing
  · rw [hdoc] at hother
    rw [← Option.some.inj hother] at hget
    obtain ⟨scored, v, hgives, hv, hscores⟩ := hkept doc scores hget
    refine ⟨scored, v, hgives, hv, ?_⟩
    intro i name hn
    have hi : i < w.weights.length := by
      rw [← hfeatures]
      exact (List.getElem?_eq_some_iff.mp hn).1
    rw [show log = _ from hentries]
    refine LogRecorder.entries_getElem? hn ?_
    rw [hscores, hfeatures]
    exact keptValues_kept hi

/-- **A replayed log has the whole vector when all its values are numbers**: a
    vector with the same ordinals set, to the logged values, is the vector itself. -/
theorem eq_of_replayed {features : FeatureSet} {recorder : LogRecorder} {log : List LogEntry}
    {u v : FeatureVector} (hsize : u.size = v.size) (hdefault : u.default = v.default)
    (hnumbers : ∀ i x, v.get? i = some x → x.isNaN = false)
    (hbeyond : ∀ i, features.size ≤ i → v.get? i = none)
    (hlog : ∀ (i : Nat) (name : String), features.names[i]? = some name →
      log[i]? = some ⟨name, recorder.reported ((v.get? i).filter (!·.isNaN))⟩)
    (hset : ∀ i, (u.get? i).isSome = (v.get? i).isSome)
    (hlogged : ∀ i x, u.get? i = some x → ∃ name, log[i]? = some ⟨name, some (.score x)⟩) :
    u = v := by
  refine FeatureVector.eq_of_get? hsize hdefault ?_
  intro i
  have hsame := hset i
  cases hv : v.get? i with
  | none =>
      rw [hv] at hsame
      exact Option.isNone_iff_eq_none.mp (Option.isSome_eq_false_iff.mp hsame)
  | some y =>
      rw [hv] at hsame
      obtain ⟨x, hx⟩ := Option.isSome_iff_exists.mp hsame
      obtain ⟨name, hentry⟩ := hlogged i x hx
      have hlt : i < features.names.length := by
        rw [show features.names.length = features.size from List.length_map _]
        refine Nat.lt_of_not_le fun hle => ?_
        rw [hbeyond i hle] at hv
        exact nomatch hv
      have hreport := hlog i _ (List.getElem?_eq_getElem hlt)
      rw [hentry, hv, filter_of_not_isNaN (Bool.eq_false_iff.mp (hnumbers i y hv))] at hreport
      rw [hx]
      exact congrArg some
        (LogValue.score.inj (Option.some.inj (LogEntry.mk.inj (Option.some.inj hreport)).2))

/-- Every query that a log needs has its weights in the merged cache, which are those
    of the searcher that ranked. -/
theorem mergedWeights_ranked {r' : ShardRequest}
    (h : ∀ target after q, r'.slotOf? target = some after → after.query.ranking? = some q →
      q.Accepted ∧ ∃ slot w, Ranked r searcher settings target slot after q w) :
    r'.mergedWeights.Faithful searcher ∧ ∀ logger ∈ r'.loggers, ∀ q,
      r'.queryOf? logger.target = some q → Covers r'.mergedWeights searcher.isEmpty q := by
  constructor
  · refine mergedWeights_faithful ?_
    rintro ⟨logger, after, q⟩ hmem
    obtain ⟨-, hafter, hq⟩ := mem_logged.mp hmem
    obtain ⟨-, slot, w, hdone⟩ := h logger.target after q hafter hq
    exact hdone.weights.1
  · intro logger hmem q hquery
    obtain ⟨after, hafter, hq⟩ := Option.bind_eq_some_iff.mp hquery
    obtain ⟨haccepted, slot, w, hdone⟩ := h logger.target after q hafter hq
    obtain ⟨-, hprepared, -⟩ := hdone.weights
    exact mergedWeights_covers (mem_logged.mpr ⟨hmem, hafter, hq⟩)
      (hprepared.holds haccepted (rfl : searcher.shard = searcher.shard))

/-- **A query that keeps no scores is logged by the weights that ranked**, whatever
    the other loggers of the request are. -/
theorem Ranked.rescored {r' : ShardRequest} {logger : Logger} {slot after : Slot}
    {q : RankingQuery} {w : RankingWeight}
    (hdone : Ranked r searcher settings logger.target slot after q w)
    (hbuilt : searcher.shard.Built) (haccepted : q.Accepted) (hq : after.query.ranking? = some q)
    (hall : ∀ target after q, r'.slotOf? target = some after → after.query.ranking? = some q →
      q.Accepted ∧ ∃ slot w, Ranked r searcher settings target slot after q w)
    (hmem : logger ∈ r'.loggers) (hafter : r'.slotOf? logger.target = some after)
    (hoff : slot.scores = none)
    (hunique : ∀ other ∈ r'.loggers, other.name = logger.name → other = logger)
    {docs : List Nat} (hdocs : docs.Nodup) {fetching : Settings}
    {written : List (String × LogRecorder)}
    (hwritten : (r'.recorders { shard := searcher.shard } fetching docs).Yields written)
    {j doc inside : Nat} (hdoc : docs[j]? = some doc) {reader : SegmentReader}
    (hreader : reader ∈ searcher.shard.readers) (hpos : 0 < inside) (hle : inside ≤ reader.maxDoc)
    (habsolute : doc = reader.docBase + inside) :
    (∃ finished log, (logger.name, finished) ∈ written ∧ (j, log) ∈ finished.take.1) ∧
      ∀ finished log, (logger.name, finished) ∈ written → (j, log) ∈ finished.take.1 →
        ∃ u, (logWeight q w.weights).Describes reader.segment inside u ∧
          ∀ (i : Nat) (name : String), q.features.names[i]? = some name →
            log[i]? = some ⟨name, (recorder logger q).reported (u.get? i)⟩ := by
  obtain ⟨hfaithful, hcovers⟩ := mergedWeights_ranked hall
  have hnone : after.scores = none := by
    have hkeeps := hdone.keeps
    rw [hoff] at hkeeps
    exact Option.isNone_iff_eq_none.mp (Option.isSome_eq_false_iff.mp hkeeps)
  have hmixed : ¬(r'.logged.all fun x => hasScores x.2.1) = true := by
    intro hcached
    have hscores : hasScores after = true :=
      List.all_eq_true.mp hcached _ (mem_logged.mpr ⟨hmem, hafter, hq⟩)
    unfold hasScores at hscores
    rw [hnone] at hscores
    exact nomatch hscores
  unfold recorders at hwritten
  rw [if_neg hmixed] at hwritten
  -- the statistics are not those of ranking, but the shard is
  have hcovers : ∀ logger ∈ r'.loggers, ∀ q, r'.queryOf? logger.target = some q →
      Covers r'.mergedWeights (Searcher.isEmpty { shard := searcher.shard }) q := hcovers
  obtain ⟨hsome, honly⟩ := rescoreLogs_yields hq hnone r'.loggers hcovers hwritten hafter
  -- the weights in the merged cache are those that ranked
  have hlogs : ∀ finished, (logger.name, finished) ∈ written →
      Rescored { shard := searcher.shard } docs logger q w.weights finished := by
    intro finished hin
    obtain ⟨ws, hholds, hrescored⟩ := honly hunique finished hin
    have hmade := hdone.weights.2.2
    rw [haccepted.size.1] at hmade
    have hholds : List.Forall₂ (r'.mergedWeights.Holds searcher.isEmpty q.features.size)
        q.queries ws := hholds
    rw [WeightCache.holds_unique hdone.weights.1 hfaithful hmade hholds]
    exact hrescored
  have hcount : w.weights.length = q.features.size := by
    rw [← hdone.weights.2.2.length_eq, haccepted.size.2]
  have hlogged : ∀ finished, (logger.name, finished) ∈ written →
      (∃ log, (j, log) ∈ finished.take.1) ∧ ∀ log, (j, log) ∈ finished.take.1 → ∃ v extra,
        (logWeight q w.weights).Describes reader.segment inside v ∧
          log = (recorder logger q).entries ⟨j, v.values.toList, extra⟩ := fun finished hin =>
    (hlogs finished hin).logs hbuilt hdocs hcount hdoc hreader hpos hle habsolute
  constructor
  · obtain ⟨finished, hin⟩ := hsome hmem
    obtain ⟨⟨log, hlog⟩, -⟩ := hlogged finished hin
    exact ⟨finished, log, hin, hlog⟩
  · intro finished log hin hlog
    obtain ⟨u, extra, hdescribes, hentries⟩ := (hlogged finished hin).2 log hlog
    refine ⟨u, hdescribes, ?_⟩
    intro i name hn
    rw [hentries]
    refine LogRecorder.entries_getElem? hn (FeatureVector.getElem?_values ?_)
    rw [hdescribes.size]
    have hlt := (List.getElem?_eq_some_iff.mp hn).1
    rw [show q.features.names.length = q.features.size from List.length_map _] at hlt
    exact hlt

/-- Values that are set alike are reported alike just when they are the same. -/
theorem reported_inj {recorder : LogRecorder} {a b : Option Float32}
    (hset : a.isSome = b.isSome) (h : recorder.reported a = recorder.reported b) : a = b := by
  cases a with
  | none =>
      cases b with
      | none => rfl
      | some y => exact nomatch hset
  | some x =>
      cases b with
      | none => exact nomatch hset
      | some y => exact congrArg some (LogValue.score.inj (Option.some.inj h))

/-- **When a log that reports one vector reports another** with the same ordinals set:
    just when they are the same. -/
theorem reports_iff {names : List String} {recorder : LogRecorder} {log : List LogEntry}
    {u v : FeatureVector} (hset : ∀ i, (u.get? i).isSome = (v.get? i).isSome)
    (hbeyond : ∀ i, names.length ≤ i → u.get? i = v.get? i)
    (hlog : ∀ (i : Nat) (name : String), names[i]? = some name →
      log[i]? = some ⟨name, recorder.reported (u.get? i)⟩) :
    (∀ (i : Nat) (name : String), names[i]? = some name →
        log[i]? = some ⟨name, recorder.reported (v.get? i)⟩) ↔
      ∀ i, u.get? i = v.get? i := by
  constructor
  · intro hother i
    by_cases hi : i < names.length
    · have hname := List.getElem?_eq_getElem hi
      have hentry := (hlog i _ hname).symm.trans (hother i _ hname)
      exact reported_inj (hset i) (LogEntry.mk.inj (Option.some.inj hentry)).2
    · exact hbeyond i (Nat.le_of_not_lt hi)
  · intro hsame i name hname
    rw [← hsame i]
    exact hlog i name hname

end ShardRequest

namespace Engine

open ShardRequest

variable {e : Engine} {request : SearchRequest} {response : SearchResponse} {parts after : Parts}
  {candidates : List SearchHit} {hit : SearchHit} {shard : Shard} {r r' : ShardRequest}
  {spec : LogSpec}

/-- The part of a hit's shard is traced. -/
theorem traced (hbuilt : e.Built) (haccepted : request.Accepted)
    (hsearch : (e.search request).2 = .ok response)
    (hscored : (e.track (e.scored request)).2 = .ok (parts, after, candidates))
    (hhit : hit ∈ response.hits) (hpart : parts[hit.shard]? = some (hit.shard, shard, r))
    (hafter : after[hit.shard]? = some (hit.shard, shard, r')) :
    Traced e request ⟨shard, e.globalOf request parts⟩ r r' hit := by
  obtain ⟨shard', s, s', hpart', hafter', htraced⟩ :=
    search_hit hbuilt haccepted hsearch hscored hhit
  rw [hpart] at hpart'
  rw [hafter] at hafter'
  obtain ⟨hshard, hr⟩ := Prod.mk.inj (Prod.mk.inj (Option.some.inj hpart')).2
  obtain ⟨-, hr'⟩ := Prod.mk.inj (Prod.mk.inj (Option.some.inj hafter')).2
  rw [hshard, hr, hr']
  exact htraced

/-- **Replayed logs report what ranking computed.**  On a shard whose logged queries
    all kept scores, a log under a name that no other spec has was written by a
    query that ranked the document.  Whenever that query scored the document, its
    vector is the one by the definition; each entry of the log reports the value of
    its feature if it matched with a number, and a missing value otherwise; and
    without a value that is no number the score is that of the ranker for the logged
    values, with its default for the features that did not match. -/
theorem replayed_logs_report_ranking (hbuilt : e.Built) (haccepted : request.Accepted)
    (hsearch : (e.search request).2 = .ok response)
    (hscored : (e.track (e.scored request)).2 = .ok (parts, after, candidates))
    (hhit : hit ∈ response.hits) (hpart : parts[hit.shard]? = some (hit.shard, shard, r))
    (hafter : after[hit.shard]? = some (hit.shard, shard, r'))
    (hcached : ∀ x ∈ r'.logged, hasScores x.2.1 = true) (hspec : spec ∈ request.logs)
    (hunique : ∀ other ∈ request.logs, other.loggerName = spec.loggerName → other = spec)
    {logger : Logger} (hlogger : resolve r.queries r.rescores spec = .ok (some logger))
    {log : List LogEntry} (hlog : hit.logs[spec.loggerName]? = some log) :
    ∃ slot q made w, r.slotOf? logger.target = some slot ∧ slot.query.ranking? = some q ∧
      q.weight ⟨shard, e.globalOf request parts⟩ .empty = (made, .ok w) ∧
      (∃ scored, r.Gives ⟨shard, e.globalOf request parts⟩ (e.settings.under hit.shard)
          logger.target hit.doc scored) ∧
      ∀ scored, r.Gives ⟨shard, e.globalOf request parts⟩ (e.settings.under hit.shard)
          logger.target hit.doc scored →
        ∃ v, ∃ reader ∈ shard.readers, ∃ inside, scored.features = some v ∧ 0 < inside ∧
          inside ≤ reader.maxDoc ∧ hit.doc = reader.docBase + inside ∧
          w.Describes reader.segment inside v ∧
          (∀ (i : Nat) (name : String), q.features.names[i]? = some name →
            log[i]? = some ⟨name,
              (recorder logger q).reported ((v.get? i).filter (!·.isNaN))⟩) ∧
          ((∀ i x, v.get? i = some x → x.isNaN = false) → ∀ u : FeatureVector,
            u.size = q.features.size → u.default = q.ranker.default →
            (∀ i, (u.get? i).isSome = (v.get? i).isSome) →
            (∀ i x, u.get? i = some x → ∃ name, log[i]? = some ⟨name, some (.score x)⟩) →
            scored.value = boosted slot.query.factor? (q.ranker.score u)) := by
  have htraced := traced hbuilt haccepted hsearch hscored hhit hpart hafter
  obtain ⟨hits, hscore, -⟩ := htraced.scored
  have hfresh := ofRequest_fresh haccepted htraced.part
  obtain ⟨hloggers, -, -, -, hranked⟩ := score_yields htraced.built hfresh hscore
  have hmember : logger ∈ r'.loggers := by
    rw [hloggers]
    exact (ofRequest_loggers htraced.part logger).mpr ⟨spec, hspec, hlogger⟩
  have hname := (resolve_eq_ok hlogger).1
  -- the log comes from the replay of the logged query
  obtain ⟨docs, j, written, -, hdoc, hwritten, hlogs⟩ :=
    htraced.logged (List.ne_nil_of_mem hmember)
  obtain ⟨finished, hfinished, hentry⟩ := (hlogs spec.loggerName log).1 hlog
  unfold recorders at hwritten
  rw [if_pos (List.all_eq_true.mpr hcached)] at hwritten
  obtain ⟨i, hi⟩ := List.mem_iff_getElem?.mp hfinished
  obtain ⟨⟨other, slot', q⟩, hitem, hreplay⟩ := forall₂_getElem? (yields_mapM hwritten).flip hi
  obtain ⟨finished', hfinished', heq⟩ := yields_bind hreplay
  obtain ⟨hother, hsame⟩ := Prod.mk.inj (yields_pure heq)
  rw [hsame] at hfinished'
  obtain ⟨hin, hslot', hq'⟩ := mem_logged.mp (List.mem_iff_getElem?.mpr ⟨i, hitem⟩)
  have hlogger' : other = logger :=
    ofRequest_unique htraced.part hlogger hunique other (hloggers ▸ hin) (hother.trans hname.symm)
  rw [hlogger'] at hslot' hfinished'
  obtain ⟨slot, w, hslot, hdone⟩ := hranked logger.target slot' q hslot' hq'
  have hq : slot.query.ranking? = some q := by rw [← hdone.query]; exact hq'
  have hnew := hfresh logger.target slot hslot
  obtain ⟨hcount, -⟩ := hnew.count hq hdone.made
  obtain ⟨-, -, -, hranker, -⟩ := RankingQuery.weight_eq_ok hdone.made
  obtain ⟨first, v, hfirst, hv, hreports⟩ :=
    hdone.replayed hcount (yields_ofChecked hfinished') hdoc hentry
  refine ⟨slot, q, slot'.weights, w, hslot, hq, hdone.made, ⟨first, hfirst⟩, ?_⟩
  intro scored hgives
  obtain ⟨reader, hreader, inside, hpos, hle, habsolute, v', hv', hdescribes, hvalue⟩ :=
    hdone.gives hit.doc scored hgives
  have hvectors : v = v' := by
    rw [(hdone.unique hfirst hgives).1, hv'] at hv
    exact (Option.some.inj hv).symm
  rw [hvectors] at hreports
  refine ⟨v', reader, hreader, inside, hv', hpos, hle, habsolute, hdescribes, hreports, ?_⟩
  intro hnumbers u husize hudefault hset hlogged
  have hsize : u.size = v'.size := by
    rw [husize, hdescribes.size, hranker, (hnew.accepted q hq).size.1]
  have hdefault : u.default = v'.default := by rw [hudefault, hdescribes.default, hranker]
  have hbeyond : ∀ i, q.features.size ≤ i → v'.get? i = none :=
    fun i hi => hdescribes.beyond i (by rw [hcount]; exact hi)
  rw [eq_of_replayed hsize hdefault hnumbers hbeyond hreports hset hlogged, hvalue, hranker]

/-- A feature that did not match is missing in the log, and one that did has the
    value that it had in the vector. -/
theorem replayed_logs_report_ranking_constant :
    let model : Model :=
      ⟨"m", ⟨"m", [.prebuilt "rare" .nothing, .prebuilt "two" (.constant 2.0)]⟩,
        .linear "m" [1.0, 1.0] 0.5, 0⟩
    let shard := (Shard.empty.add "a" [] 1).1
    let e : Engine := { shards := #[shard] }
    let request : SearchRequest := {
      queries := [(some "q", .byModel model [] (some true))]
      logs := [{ name := some "log", namedQuery := some "q" }] }
    let q : RankingQuery := ⟨[.nothing, .constant 2.0], model.features, model.ranker, 0⟩
    let r : ShardRequest :=
      ⟨none, [{ query := .ranking q, name := some "q", scores := some .empty }], [],
        [⟨"log", false, .query 0⟩]⟩
    let log : List LogEntry := [⟨"rare", none⟩, ⟨"two", some (.score 2.0)⟩]
    let hit : SearchHit :=
      { key := "a", shard := 0, doc := 1, score := 2.5, logs := Std.TreeMap.insert {} "log" log }
    (e.search request).2 = .ok ⟨1, [hit]⟩ ∧
      ∃ scored v, r.Gives ⟨shard, none⟩ (Settings.under {} 0) (.query 0) 1 scored ∧
        scored.features = some v ∧
        (v.get? 1).filter (!·.isNaN) = some 2.0 := by
  intro model shard e request q r log hit
  let after : ShardRequest := { r with queries := [{
    query := .ranking q, name := some "q"
    scores := some (ScoreCache.empty.insertOnce 1 [Number.nan32, 2.0])
    weights := (q.weight ⟨shard, none⟩ .empty).1 }] }
  let scoredHit : SearchHit := { hit with logs := {} }
  have hscored : (ExceptT.run (e.scored request)).run e.counters
      = (.ok ([(0, shard, r)], [(0, shard, after)], [scoredHit]), { total := 1 }) := by
    subst scoredHit after hit log r q request e shard model
    rfl
  have hfetched : (ExceptT.run (e.fetchParts request [(0, shard, r)] [(0, shard, after)]
        [scoredHit])).run { total := 1 }
      = (.ok [[hit]], { total := 1 }) := by
    unfold fetchParts
    rw [SearchHit.sort_singleton]
    rfl
  have hsearch : (e.search request).2 = .ok ⟨1, SearchHit.sort [hit]⟩ :=
    search_ok hscored hfetched
  rw [SearchHit.sort_singleton] at hsearch
  refine ⟨hsearch, ?_⟩
  have hbuilt : e.Built := Built.single (Shard.Built.empty.add "a" [] 1)
  have haccepted : request.Accepted := by
    refine ⟨?_, fun _ hmem => nomatch hmem⟩
    intro x hmem
    rw [List.mem_singleton.mp hmem]
    rfl
  have hcached : ∀ x ∈ after.logged, hasScores x.2.1 = true := by
    intro x hmem
    have hmem : x ∈ [((⟨"log", false, .query 0⟩ : Logger), _, q)] := hmem
    rw [List.mem_singleton.mp hmem]
    rfl
  obtain ⟨slot, q', made, w, hslot, hq, -, ⟨scored, hgives⟩, hreports⟩ :=
    replayed_logs_report_ranking hbuilt haccepted hsearch
      (show (e.track (e.scored request)).2 = _ from congrArg Prod.fst hscored)
      (show hit ∈ _ from List.mem_singleton.mpr rfl) (show _ = some (_, shard, r) from rfl)
      (show _ = some (_, _, after) from rfl) hcached (List.mem_singleton.mpr rfl)
      (fun _ hmem _ => List.mem_singleton.mp hmem)
      (show resolve _ _ _ = .ok (some ⟨"log", false, .query 0⟩) from rfl)
      (show _ = some log from rfl)
  obtain ⟨v, -, -, -, hv, -, -, -, -, hentries, -⟩ := hreports scored hgives
  refine ⟨scored, v, hgives, hv, ?_⟩
  rw [← Option.some.inj hslot] at hq
  rw [← Option.some.inj hq] at hentries
  have hentry := (LogEntry.mk.inj (Option.some.inj (hentries 1 "two" rfl))).2
  cases hvalue : (v.get? 1).filter (!·.isNaN) with
  | none =>
      rw [hvalue] at hentry
      exact nomatch hentry
  | some x =>
      rw [hvalue] at hentry
      exact congrArg some (LogValue.score.inj (Option.some.inj hentry)).symm

/-- **When logs of a query that keeps no scores report what ranking computed.**  Every
    hit has a log under the name of a named query that no other spec has.  The query
    scored the document while ranking, by the definition; the log reports the vector
    that the definition gives for the default `0.0`, with the same ordinals set, so a
    feature that did not match is missing there too.  The log reports the vector of
    ranking just when no feature of the document gives another score where ordinals
    that are not set read as `0.0`. -/
theorem rescored_logs_report_ranking_iff (hbuilt : e.Built) (haccepted : request.Accepted)
    (hsearch : (e.search request).2 = .ok response)
    (hscored : (e.track (e.scored request)).2 = .ok (parts, after, candidates))
    (hhit : hit ∈ response.hits) (hpart : parts[hit.shard]? = some (hit.shard, shard, r))
    (hspec : spec ∈ request.logs)
    (hunique : ∀ other ∈ request.logs, other.loggerName = spec.loggerName → other = spec)
    {name : String} (hnamed : spec.namedQuery = some name) {place : Nat}
    (hplace : placeOf? name r.queries = some place) {slot : Slot}
    (hslot : r.queries[place]? = some slot) (hoff : slot.scores = none) :
    ∃ log q made w, hit.logs[spec.loggerName]? = some log ∧ slot.query.ranking? = some q ∧
      q.weight ⟨shard, e.globalOf request parts⟩ .empty = (made, .ok w) ∧
      (∃ scored, r.Gives ⟨shard, e.globalOf request parts⟩ (e.settings.under hit.shard)
          (.query place) hit.doc scored) ∧
      ∀ scored, r.Gives ⟨shard, e.globalOf request parts⟩ (e.settings.under hit.shard)
          (.query place) hit.doc scored →
        ∃ v u, ∃ reader ∈ shard.readers, ∃ inside, scored.features = some v ∧ 0 < inside ∧
          inside ≤ reader.maxDoc ∧ hit.doc = reader.docBase + inside ∧
          w.Describes reader.segment inside v ∧
          (logWeight q w.weights).Describes reader.segment inside u ∧
          (∀ (i : Nat) (name : String), q.features.names[i]? = some name →
            log[i]? = some ⟨name,
              (recorder ⟨spec.loggerName, spec.missingAsZero, .query place⟩ q).reported
                (u.get? i)⟩) ∧
          (∀ i, (u.get? i).isSome = (v.get? i).isSome) ∧
          ((∀ (i : Nat) (name : String), q.features.names[i]? = some name →
              log[i]? = some ⟨name,
                (recorder ⟨spec.loggerName, spec.missingAsZero, .query place⟩ q).reported
                  (v.get? i)⟩) ↔
            ∀ (i : Nat) (weight : Weight), w.weights[i]? = some weight →
              weight.scoreAt reader.segment inside (some (v.below i))
                = weight.scoreAt reader.segment inside (some ((v.below i).withDefault 0.0))) := by
  obtain ⟨shard', s, r', hpart', hafter, htraced⟩ :=
    search_hit hbuilt haccepted hsearch hscored hhit
  rw [hpart] at hpart'
  obtain ⟨hshard, hr⟩ := Prod.mk.inj (Prod.mk.inj (Option.some.inj hpart')).2
  rw [← hshard, ← hr] at htraced
  obtain ⟨hits, hscore, hdoc⟩ := htraced.scored
  have hfresh := ofRequest_fresh haccepted htraced.part
  obtain ⟨hloggers, -, hlets, hpasses, hranked⟩ := score_yields htraced.built hfresh hscore
  obtain ⟨q, hq, hmember, honly⟩ :=
    ofRequest_named htraced.part hspec hunique hnamed hplace hslot
  rw [← hloggers] at hmember honly
  obtain ⟨after', hafter', scores, hpass⟩ := forall₂_getElem? hpasses hslot
  obtain ⟨w, hdone, hpassed⟩ := hfresh.ranked_query htraced.built hslot hpass hq
  have hnew := hfresh (.query place) slot hslot
  have hall : ∀ target after q, r'.slotOf? target = some after → after.query.ranking? = some q →
      q.Accepted ∧ ∃ slot w, Ranked r ⟨shard, e.globalOf request parts⟩ (e.settings.under hit.shard)
        target slot after q w := by
    intro target after q hafter hq
    obtain ⟨slot, w, hslot, hdone⟩ := hranked target after q hafter hq
    rw [hdone.query] at hq
    exact ⟨(hfresh target slot hslot).accepted q hq, slot, w, hdone⟩
  -- where the document is
  obtain ⟨hit', hmem', hsame⟩ := List.mem_map.mp hdoc
  obtain ⟨reader, hreader, inside, hpos, hle, habsolute, hallowed⟩ := hlets hit' hmem'
  rw [hsame] at habsolute
  obtain ⟨first, hfirst⟩ := hpassed.complete reader hreader inside hpos hle hallowed
  rw [← habsolute] at hfirst
  obtain ⟨docs, j, written, hdocs, hj, hwritten, hlogs⟩ :=
    htraced.logged (List.ne_nil_of_mem hmember)
  have hq' : after'.query.ranking? = some q := by rw [hdone.query]; exact hq
  obtain ⟨⟨finished, log₀, hfinished, hlog₀⟩, hentries⟩ := hdone.rescored htraced.built
    (hnew.accepted q hq) hq' hall hmember hafter' hoff honly hdocs hwritten hj hreader hpos hle
    habsolute
  obtain ⟨log, hlog⟩ := Option.isSome_iff_exists.mp
    ((hlogs spec.loggerName log₀).2 ⟨finished, hfinished, hlog₀⟩)
  obtain ⟨finished', hfinished', hin⟩ := (hlogs spec.loggerName log).1 hlog
  obtain ⟨u, hu, hreports⟩ := hentries finished' log hfinished' hin
  refine ⟨log, q, after'.weights, w, hlog, hq, hdone.made, ⟨first, .query hslot hpass hfirst⟩, ?_⟩
  intro scored hgives
  obtain ⟨reader', hreader', inside', hpos', hle', habsolute', v, hv, hdescribes, -⟩ :=
    hdone.gives hit.doc scored hgives
  obtain ⟨hreaders, hinside⟩ := shard.readers_unique hreader hreader' hpos hle hpos' hle'
    (habsolute.symm.trans habsolute')
  rw [← hreaders, ← hinside] at hdescribes
  have hset := hdescribes.isSome_eq hu rfl
  obtain ⟨hcount, -⟩ := hnew.count hq hdone.made
  obtain ⟨-, -, -, hranker, -⟩ := RankingQuery.weight_eq_ok hdone.made
  have hfeatures : (logWeight q w.weights).ranker.featureCount = w.ranker.featureCount := by
    rw [hranker, (hnew.accepted q hq).size.1]
    rfl
  have hbeyond : ∀ i, q.features.names.length ≤ i → u.get? i = v.get? i := by
    intro i hi
    rw [show q.features.names.length = q.features.size from List.length_map _, ← hcount] at hi
    rw [hdescribes.beyond i hi, hu.beyond i hi]
  exact ⟨v, u, reader, hreader, inside, hv, hpos, hle, habsolute, hdescribes, hu, hreports, hset,
    (reports_iff hset hbeyond hreports).trans (hdescribes.same_iff hu rfl hfeatures)⟩

/-- A sum over a feature that did not match: ranking reads the default `0.5` of the
    ranker, and the log has `0.0`. -/
theorem rescored_logs_report_ranking_iff_unmatched_input :
    let model : Model :=
      ⟨"m", ⟨"m", [.prebuilt "rare" .nothing, .prebuilt "copy" (.derived ⟨[(0, 1.0)], 0.0, none⟩)]⟩,
        .linear "m" [0.0, 1.0] 0.5, 0⟩
    let shard := (Shard.empty.add "a" [] 1).1
    let e : Engine := { shards := #[shard] }
    let request : SearchRequest := {
      queries := [(some "q", .prebuilt model)]
      logs := [{ name := some "log", namedQuery := some "q" }] }
    let q : RankingQuery :=
      ⟨[.nothing, .derived ⟨[(0, 1.0)], 0.0, none⟩], model.features, model.ranker, 0⟩
    let r : ShardRequest :=
      ⟨none, [{ query := .ranking q, name := some "q" }], [], [⟨"log", false, .query 0⟩]⟩
    let log : List LogEntry := [⟨"rare", none⟩, ⟨"copy", some (.score 0.0)⟩]
    let hit : SearchHit :=
      { key := "a", shard := 0, doc := 1, score := 0.5, logs := Std.TreeMap.insert {} "log" log }
    (e.search request).2 = .ok ⟨1, [hit]⟩ ∧
      ∃ scored v, r.Gives ⟨shard, none⟩ (Settings.under {} 0) (.query 0) 1 scored ∧
        scored.features = some v ∧
        v.get? 1 = some 0.5 := by
  intro model shard e request q r log hit
  let after : ShardRequest := { r with queries := [{
    query := .ranking q, name := some "q"
    weights := (q.weight ⟨shard, none⟩ .empty).1 }] }
  let scoredHit : SearchHit := { hit with logs := {} }
  have hscored : (ExceptT.run (e.scored request)).run e.counters
      = (.ok ([(0, shard, r)], [(0, shard, after)], [scoredHit]), {}) := by
    subst scoredHit after hit log r q request e shard model
    rfl
  have hfetched : (ExceptT.run (e.fetchParts request [(0, shard, r)] [(0, shard, after)]
        [scoredHit])).run {}
      = (.ok [[hit]], {}) := by
    unfold fetchParts
    rw [SearchHit.sort_singleton]
    subst scoredHit after hit log r q request e shard model
    with_unfolding_all rfl
  have hsearch : (e.search request).2 = .ok ⟨1, SearchHit.sort [hit]⟩ :=
    search_ok hscored hfetched
  rw [SearchHit.sort_singleton] at hsearch
  refine ⟨hsearch, ?_⟩
  have hbuilt : e.Built := Built.single (Shard.Built.empty.add "a" [] 1)
  have haccepted : request.Accepted := by
    refine ⟨?_, fun _ hmem => nomatch hmem⟩
    intro x hmem
    rw [List.mem_singleton.mp hmem]
    rfl
  obtain ⟨log', q', made, w, hlog, hq, hmade, ⟨scored, hgives⟩, hreports⟩ :=
    rescored_logs_report_ranking_iff hbuilt haccepted hsearch
      (show (e.track (e.scored request)).2 = _ from congrArg Prod.fst hscored)
      (show hit ∈ _ from List.mem_singleton.mpr rfl) (show _ = some (_, shard, r) from rfl)
      (List.mem_singleton.mpr rfl)
      (fun _ hmem _ => List.mem_singleton.mp hmem)
      (show LogSpec.namedQuery _ = some "q" from rfl) (show _ = some 0 from rfl) rfl rfl
  obtain ⟨v, -, reader, hreader, inside, hv, hpos, hle, -, hdescribes, -⟩ := hreports scored hgives
  have hreader : reader ∈ [(⟨(Segment.empty.add []).1, 0, 0⟩ : SegmentReader)] := hreader
  rw [List.mem_singleton.mp hreader] at hle hdescribes
  rw [show inside = 1 from Nat.le_antisymm hle hpos] at hdescribes
  rw [← Option.some.inj hq] at hmade
  have hw : ⟨[.nothing, .derived ⟨[(0, 1.0)], 0.0, none⟩], model.ranker, model.features⟩ = w :=
    Except.ok.inj (congrArg Prod.snd hmade)
  rw [← hw] at hdescribes
  refine ⟨scored, v, hgives, hv, ?_⟩
  have hrare : v.get? 0 = none := (Except.ok.inj (hdescribes.value 0 .nothing rfl)).symm
  have hread : (v.below 1).get 0 = 0.5 := by
    rw [FeatureVector.get, FeatureVector.get?_below, if_pos Nat.zero_lt_one, hrare]
    exact hdescribes.default
  have hcopy : some ((0.0 : Float32) + 1.0 * (v.below 1).get 0) = v.get? 1 :=
    Except.ok.inj (hdescribes.value 1 _ rfl)
  rw [← hcopy, hread]
  decide

end Engine

end FeatureRank
