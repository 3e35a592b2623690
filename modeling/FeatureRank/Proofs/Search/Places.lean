import FeatureRank.Proofs.Search.Logging
import FeatureRank.Proofs.Search.States

/-! # Where visits and logs belong

    A visit goes by the place of its document in the list of those to visit, and a log
    by the place of its hit.  Every place is one of the list (`QueryWeight.visit_lt`,
    `ShardRequest.recorders_lt`), so a stage changes hits of its window only and a log
    goes to a hit that there is. -/

namespace FeatureRank

/-! ## Visits -/

namespace QueryWeight

variable {w : QueryWeight} {reader : SegmentReader} {places : List (Nat × Nat)}
  {cache after : Option ScoreCache} {visits : List (Nat × Nat × Scored)}

/-- A score that a scorer for a segment gives while it stands on a document. -/
def ScoresAt (w : QueryWeight) (reader : SegmentReader) (doc : Nat) (scored : Scored) : Prop :=
  ∃ before s s', w.Reached reader before s ∧ s.stop = .doc doc ∧ s.score = .ok (s', scored)

/-- **A visit is one of those that were wanted**: the scorer stands on its document, and
    the score is the one that it gives there. -/
theorem Reached.visitAll_scoresAt {before : Option ScoreCache} {wanted : List (Nat × Nat)} :
    ∀ {s s' : QueryScorer} {visits : List (Nat × Nat × Scored)}, w.Reached reader before s →
      (∀ x ∈ wanted, 0 < x.2) → s.visitAll wanted = .ok (visits, s') →
      ∀ v ∈ visits, (v.1, v.2.1) ∈ wanted ∧ w.ScoresAt reader v.2.1 v.2.2 := by
  induction wanted with
  | nil =>
      intro s s' visits _ _ h
      rw [← (Prod.mk.inj (Except.ok.inj h)).1]
      exact List.forall_mem_nil _
  | cons x rest ih =>
      intro s s' visits hs hpos h
      obtain ⟨hx, hrest⟩ := List.forall_mem_cons.mp hpos
      have hbrought := hs.reach hx
      unfold QueryScorer.visitAll at h
      by_cases hstop : (DocWalk.reach x.2 s).stop = .doc x.2
      · simp only [hstop, if_true] at h
        obtain ⟨⟨t, scored⟩, hscore, h⟩ := bind_eq_ok.mp h
        obtain ⟨⟨others, t'⟩, hothers, h⟩ := bind_eq_ok.mp h
        rw [← (Prod.mk.inj (Except.ok.inj h)).1]
        refine List.forall_mem_cons.mpr ⟨⟨List.mem_cons_self, ?_⟩, fun v hv => ?_⟩
        · exact ⟨before, _, t, hbrought, hstop, hscore⟩
        · exact (ih (hbrought.score hstop hx hscore) hrest hothers v hv).imp_left
            (List.mem_cons_of_mem x)
      · simp only [hstop, if_false] at h
        exact fun v hv => (ih hbrought hrest h v hv).imp_left (List.mem_cons_of_mem x)

theorem visitSegment_scoresAt (h : w.visitSegment reader places cache = .ok (visits, after)) :
    ∀ v ∈ visits, (v.1, v.2.1) ∈ RankingWeight.insideOf reader places ∧
      w.ScoresAt reader v.2.1 v.2.2 := by
  unfold visitSegment at h
  cases hs : w.scorer? reader cache with
  | none =>
      simp only [hs] at h
      rw [← (Prod.mk.inj (Except.ok.inj h)).1]
      exact List.forall_mem_nil _
  | some s =>
      simp only [hs] at h
      obtain ⟨⟨found, s'⟩, hfound, h⟩ := bind_eq_ok.mp h
      rw [← (Prod.mk.inj (Except.ok.inj h)).1]
      exact Reached.visitAll_scoresAt (.fresh hs)
        (fun x hx => (RankingWeight.mem_insideOf.mp hx).1) hfound

theorem visitSegments_scoresAt {readers : List SegmentReader} :
    ∀ {cache after : Option ScoreCache} {visits : List (Nat × Nat × Scored)},
      w.visitSegments places readers cache = .ok (visits, after) →
      ∀ v ∈ visits, ∃ reader ∈ readers, (v.1, v.2.1) ∈ RankingWeight.insideOf reader places ∧
        w.ScoresAt reader v.2.1 v.2.2 := by
  induction readers with
  | nil =>
      intro cache after visits h
      rw [← (Prod.mk.inj (Except.ok.inj h)).1]
      exact List.forall_mem_nil _
  | cons first rest ih =>
      intro cache after visits h
      obtain ⟨⟨here, between⟩, hhere, h⟩ := bind_eq_ok.mp h
      obtain ⟨⟨others, last⟩, hothers, h⟩ := bind_eq_ok.mp h
      rw [← (Prod.mk.inj (Except.ok.inj h)).1]
      refine List.forall_mem_append.mpr ⟨fun v hv => ?_, fun v hv => ?_⟩
      · exact ⟨first, List.mem_cons_self, visitSegment_scoresAt hhere v hv⟩
      · obtain ⟨reader, hreader, hvisit⟩ := ih hothers v hv
        exact ⟨reader, List.mem_cons_of_mem first hreader, hvisit⟩

/-- **A visit goes by a place of the list.** -/
theorem visit_lt {shard : Shard} {numbers : List Nat}
    (h : w.visit shard numbers cache = .ok (visits, after)) :
    ∀ v ∈ visits, v.1 < numbers.length := by
  intro v hv
  obtain ⟨reader, -, hinside, -⟩ := visitSegments_scoresAt h v hv
  have hplace := RankingWeight.mem_placesOf.mp (RankingWeight.mem_insideOf.mp hinside).2.2
  exact (List.getElem?_eq_some_iff.mp hplace).1

end QueryWeight

/-! ## Logs -/

namespace LogRecorder

/-- The hits that the logs of a recorder are for, in order. -/
def hits (r : LogRecorder) : List Nat := r.take.1.map (·.1)

theorem hits_nextDoc (r : LogRecorder) (hit : Nat) : (r.nextDoc hit).hits = r.hits ++ [hit] :=
  List.map_append

/-- A value goes into the log that is open. -/
theorem hits_accept {r r' : LogRecorder} {ordinal : Nat} {value : Float32}
    (h : r.accept ordinal value = .ok r') : r'.hits = r.hits := by
  unfold accept at h
  unfold hits take close
  cases hopen : r.current with
  | none =>
      simp only [hopen] at h
      cases h
  | some log =>
      simp only [hopen] at h
      split at h
      · rw [← Except.ok.inj h]
        simp
      · cases h

theorem hits_addExtra {r r' : LogRecorder} {key : String} {value : Json}
    (h : r.addExtra key value = .ok r') : r'.hits = r.hits := by
  unfold addExtra at h
  unfold hits take close
  cases hopen : r.current with
  | none =>
      simp only [hopen] at h
      cases h
  | some log =>
      simp only [hopen] at h
      rw [← Except.ok.inj h]
      simp

/-- Steps that leave the hits leave them one after the other. -/
theorem hits_foldlM {ι : Type} {step : LogRecorder → ι → Checked LogRecorder}
    (hstep : ∀ {r r' : LogRecorder} {item : ι}, step r item = .ok r' → r'.hits = r.hits)
    {items : List ι} :
    ∀ {r r' : LogRecorder}, items.foldlM step r = .ok r' → r'.hits = r.hits := by
  induction items with
  | nil =>
      intro r r' h
      rw [← Except.ok.inj h]
  | cons first rest ih =>
      intro r r' h
      obtain ⟨next, hnext, hrest⟩ := bind_eq_ok.mp h
      rw [ih hrest, hstep hnext]

/-- **A recorded document has one log**, for its hit. -/
theorem hits_record {r r' : LogRecorder} {hit : Nat} {scored : Scored}
    (h : r.record hit scored = .ok r') : r'.hits = r.hits ++ [hit] := by
  obtain ⟨between, hextras, hvalues⟩ := bind_eq_ok.mp h
  rw [hits_foldlM (fun h => hits_accept h) hvalues, hits_foldlM (fun h => hits_addExtra h) hextras,
    hits_nextDoc]

theorem hits_recordVisits {visits : List (Nat × Nat × Scored)} :
    ∀ {r r' : LogRecorder}, r.recordVisits visits = .ok r' →
      r'.hits = r.hits ++ visits.map (·.1) := by
  induction visits with
  | nil =>
      intro r r' h
      rw [← Except.ok.inj h, List.map_nil, List.append_nil]
  | cons first rest ih =>
      intro r r' h
      obtain ⟨next, hnext, hrest⟩ := bind_eq_ok.mp h
      rw [ih hrest, hits_record hnext, List.append_assoc]
      rfl

/-- **The logs of visits are for places of the list.** -/
theorem recordVisits_lt {w : QueryWeight} {shard : Shard} {numbers : List Nat}
    {cache after : Option ScoreCache} {visits : List (Nat × Nat × Scored)}
    (hvisit : w.visit shard numbers cache = .ok (visits, after)) {r r' : LogRecorder}
    (hnone : r.hits = []) (h : r.recordVisits visits = .ok r') :
    ∀ hit ∈ r'.hits, hit < numbers.length := by
  rw [hits_recordVisits h, hnone, List.nil_append]
  exact List.forall_mem_map.mpr (QueryWeight.visit_lt hvisit)

end LogRecorder

namespace ShardRequest

open Tracked

/-- A replay of one document opens a log for its place, or none. -/
theorem hits_replayDoc {scores : Option ScoreCache} {r r' : LogRecorder} {item : Nat × Nat}
    (h : replayDoc scores r item = .ok r') : r'.hits = r.hits ∨ r'.hits = r.hits ++ [item.2] := by
  unfold replayDoc at h
  split at h
  · rw [LogRecorder.hits_foldlM (fun h => LogRecorder.hits_accept h) h, LogRecorder.hits_nextDoc]
    exact .inr rfl
  · rw [← Except.ok.inj h]
    exact .inl rfl

theorem hits_replay {scores : Option ScoreCache} {items : List (Nat × Nat)} :
    ∀ {r r' : LogRecorder}, items.foldlM (replayDoc scores) r = .ok r' →
      ∀ hit ∈ r'.hits, hit ∈ r.hits ∨ hit ∈ items.map (·.2) := by
  induction items with
  | nil =>
      intro r r' h hit hhit
      rw [← Except.ok.inj h] at hhit
      exact .inl hhit
  | cons first rest ih =>
      intro r r' h hit hhit
      obtain ⟨next, hnext, hrest⟩ := bind_eq_ok.mp h
      rcases ih hrest hit hhit with hhit | hhit
      · rcases hits_replayDoc hnext with hsame | hopened
        · exact .inl (hsame ▸ hhit)
        · rw [hopened] at hhit
          refine (List.mem_append.mp hhit).imp_right fun h => ?_
          exact List.mem_cons.mpr (.inl (List.mem_singleton.mp h))
      · exact .inr (List.mem_cons_of_mem _ hhit)

/-- A replay logs some of the documents, each for its place. -/
theorem replayLogs_lt {scores : Option ScoreCache} {r r' : LogRecorder} {numbers : List Nat}
    (hnone : r.hits = []) (h : replayLogs r scores numbers = .ok r') :
    ∀ hit ∈ r'.hits, hit < numbers.length := by
  intro hit hhit
  rcases hits_replay h hit hhit with hhit | hhit
  · rw [hnone] at hhit
    cases hhit
  · rw [List.zipIdx_map_snd] at hhit
    have hlt := (List.mem_range'_1.mp hhit).2
    rwa [Nat.zero_add] at hlt

theorem rescoreLogs_lt {searcher : Searcher} {settings : Settings} {numbers : List Nat}
    {loggers : List Logger} :
    ∀ {weights : WeightCache} {r : ShardRequest} {recorders : List (String × LogRecorder)},
      (rescoreLogs searcher settings numbers loggers weights r).Yields recorders →
      ∀ x ∈ recorders, ∀ hit ∈ x.2.hits, hit < numbers.length := by
  induction loggers with
  | nil =>
      intro weights r recorders h
      rw [← yields_pure h]
      exact List.forall_mem_nil _
  | cons logger rest ih =>
      intro weights r recorders h
      unfold rescoreLogs at h
      split at h
      · exact ih h
      · obtain ⟨w, -, h⟩ := yields_bind h
        obtain ⟨⟨visits, scores⟩, hvisit, h⟩ := yields_bind h
        obtain ⟨finished, hfinished, h⟩ := yields_bind h
        obtain ⟨others, hothers, h⟩ := yields_bind h
        rw [← yields_pure h]
        exact List.forall_mem_cons.mpr ⟨LogRecorder.recordVisits_lt (yields_ofChecked hvisit) rfl
          (yields_ofChecked hfinished), ih hothers⟩

/-- **Every log is for one of the hits**, whichever way the logs are written. -/
theorem recorders_lt {r : ShardRequest} {searcher : Searcher} {settings : Settings}
    {numbers : List Nat} {recorders : List (String × LogRecorder)}
    (h : (r.recorders searcher settings numbers).Yields recorders) :
    ∀ x ∈ recorders, ∀ hit ∈ x.2.hits, hit < numbers.length := by
  unfold ShardRequest.recorders at h
  split at h
  · intro x hx
    obtain ⟨⟨logger, slot, q⟩, -, hmade⟩ := forall₂_mem (yields_mapM h).flip hx
    obtain ⟨finished, hfinished, hmade⟩ := yields_bind hmade
    rw [← yields_pure hmade]
    exact replayLogs_lt rfl (yields_ofChecked hfinished)
  · exact rescoreLogs_lt h

end ShardRequest

end FeatureRank
