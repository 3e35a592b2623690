import FeatureRank.Proofs.Search.Pass

/-! # Searches of a segment — one step at a time

    A search of a segment shares the score cache of a ranking query with searches
    of other segments.  It asks the cache in three places, and each of them is
    atomic: when it moves to the next document, when it looks for the scores of the
    document that it stands on, and when it records the scores that it did not
    find (`SegmentSearch.step`).

    A search only asks for documents of its own segment, and only it records them.
    `SegmentSearch.Sound` is what holds of it whatever the others do: a step of the
    search itself keeps it (`SegmentSearch.Sound.step`), and a step of another one
    does (`SegmentSearch.Sound.others`).  So it gives what it gives alone
    (`SegmentSearch.Sound.alone`). -/

namespace FeatureRank

open DocWalk

/-! ## Steps -/

/-- What a search of a segment does next. -/
inductive SearchPhase where
  /-- go to the next document -/
  | move
  /-- look for the scores of the document on which the search stands -/
  | look (doc : Nat)
  /-- record the scores of the document, which were not there to be found -/
  | record (doc : Nat) (collected : RankingScorer.Collected)
  | done

/-- A search of one segment by a ranking query, with the scores that it has given so far. -/
structure SegmentSearch where
  reader : SegmentReader
  allowed : Nat → Bool
  scorer : RankingScorer
  phase : SearchPhase := .move
  found : List (Nat × Float32) := []

/-- A scorer that sees what other scorers recorded. -/
def RankingScorer.sharing (s : RankingScorer) (shared : ScoreCache) : RankingScorer :=
  { s with walk := { s.walk with cache := some shared } }

namespace SegmentSearch

/-- The search of a segment before its first step. -/
def start (w : RankingWeight) (reader : SegmentReader) (allowed : Nat → Bool) : SegmentSearch where
  reader
  allowed
  scorer := w.scorer reader (some .empty)

/-- The search after a document was scored by a vector. -/
def give (t : SegmentSearch) (doc : Nat) (vector : FeatureVector) : SegmentSearch :=
  { t with
    scorer := { t.scorer with vector := some vector }
    phase := .move
    found := t.found ++ [(doc, t.scorer.ranker.score vector)] }

/-- One step of a search on the cache that it shares. -/
def step (shared : ScoreCache) (t : SegmentSearch) : Checked (ScoreCache × SegmentSearch) :=
  match t.phase with
  | .move =>
    let scorer := DocWalk.next (t.scorer.sharing shared)
    match stop scorer with
    | .exhausted => return (shared, { t with scorer, phase := .done })
    | .doc doc =>
      return (shared, { t with scorer, phase := if t.allowed doc then .look doc else .move })
  | .look doc => do
    let vector := t.scorer.ranker.newVector t.scorer.vector
    match ← shared.replay (t.scorer.walk.absolute doc) vector with
    | some vector => return (shared, t.give doc vector)
    | none =>
      let collected ← RankingScorer.collect doc 0 vector t.scorer.walk.walks
      return (shared, { t with phase := .record doc collected })
  | .record doc collected =>
    return (shared.insertOnce (t.scorer.walk.absolute doc) collected.scores,
      t.give doc collected.vector)
  | .done => return (shared, t)

/-- **Looking and recording at once is scoring.**  A scorer that scores a document
    takes the same two steps with none of another search between them. -/
theorem steps_score {shared : ScoreCache} {t : SegmentSearch} {doc : Nat}
    (hphase : t.phase = .look doc) (hstop : stop t.scorer = .doc doc) {s' : RankingScorer}
    {scored : Scored} (hscore : (t.scorer.sharing shared).score = .ok (s', scored)) :
    ∃ after t', (t.step shared = .ok (after, t') ∨
        ∃ between, t.step shared = .ok (shared, between) ∧ between.step shared = .ok (after, t')) ∧
      t'.phase = .move ∧ t'.found = t.found ++ [(doc, scored.value)] ∧
      t'.scorer.sharing after = s' := by
  obtain ⟨doc', c, cache, hstop', hgather, hs', hvalue, -⟩ := RankingScorer.score_eq_ok hscore
  have hdoc : doc = doc' := Stop.doc.inj (hstop.symm.trans hstop')
  rw [← hdoc] at hgather
  unfold RankingScorer.gather at hgather
  obtain ⟨replayed, hreplay, hgather⟩ := bind_eq_ok.mp hgather
  have hreplay : shared.replay (t.scorer.walk.absolute doc)
      (t.scorer.ranker.newVector t.scorer.vector) = .ok replayed := hreplay
  cases replayed with
  | some v =>
      obtain ⟨hc, hcache⟩ := Prod.mk.inj (Except.ok.inj hgather)
      refine ⟨shared, t.give doc v, Or.inl ?_, rfl, ?_, ?_⟩
      · simp only [step, hphase]
        exact bind_eq_ok.mpr ⟨some v, hreplay, rfl⟩
      · rw [hvalue, ← hc]
        rfl
      · rw [hs', ← hc, ← hcache]
        rfl
  | none =>
      obtain ⟨collected, hcollect, hgather⟩ := bind_eq_ok.mp hgather
      obtain ⟨hc, hcache⟩ := Prod.mk.inj (Except.ok.inj hgather)
      refine ⟨_, t.give doc collected.vector,
        Or.inr ⟨{ t with phase := .record doc collected }, ?_, rfl⟩, rfl, ?_, ?_⟩
      · simp only [step, hphase]
        exact bind_eq_ok.mpr ⟨none, hreplay, bind_eq_ok.mpr ⟨collected, hcollect, rfl⟩⟩
      · rw [hvalue, ← hc]
        rfl
      · rw [hs', ← hc, ← hcache]
        rfl

/-! ## One search -/

/-- Where a search is: before some documents of the segment that it has not been
    to, and the scores that it has given are those of the allowed documents up to
    there. -/
def Stands (w : RankingWeight) (reader : SegmentReader) (allowed : Nat → Bool)
    (t : SegmentSearch) : Prop :=
  match t.phase with
  | .move => ∃ here, stop t.scorer = .doc here ∧ here ≤ reader.maxDoc ∧
      t.found.map (·.1) = (List.range' 1 here).filter allowed
  | .look doc => stop t.scorer = .doc doc ∧ 0 < doc ∧ allowed doc = true ∧
      t.found.map (·.1) = (List.range' 1 (doc - 1)).filter allowed
  | .record doc collected => stop t.scorer = .doc doc ∧ 0 < doc ∧ allowed doc = true ∧
      t.found.map (·.1) = (List.range' 1 (doc - 1)).filter allowed ∧
      w.Describes reader.segment doc collected.vector ∧
      collected.scores = collected.vector.kept 0 w.weights.length
  | .done => t.found.map (·.1) = (List.range' 1 reader.maxDoc).filter allowed

/-- What holds of a search in every state, whatever the others do: the scores that it
    has given are those by the definition, the cache holds what is kept of their
    vectors, and it holds no other document of the segment. -/
structure Sound (w : RankingWeight) (shared : ScoreCache) (reader : SegmentReader)
    (allowed : Nat → Bool) (t : SegmentSearch) : Prop where
  reader_eq : t.reader = reader
  allowed_eq : t.allowed = allowed
  tracks : RankingScorer.Tracks w reader t.scorer
  cache : ∃ mine, t.scorer.walk.cache = some mine ∧ shared.Extends mine
  given : ∀ x ∈ t.found, ∃ v, w.Describes reader.segment x.1 v ∧ x.2 = w.ranker.score v ∧
    shared.get? (reader.docBase + x.1) = some (v.kept 0 w.weights.length)
  free : ∀ doc, 0 < doc → doc ≤ reader.maxDoc → doc ∉ t.found.map (·.1) →
    shared.get? (reader.docBase + doc) = none
  stands : t.Stands w reader allowed

variable {w : RankingWeight} {shared : ScoreCache} {reader : SegmentReader} {allowed : Nat → Bool}
  {t : SegmentSearch}

theorem Sound.start (w : RankingWeight) (reader : SegmentReader) (allowed : Nat → Bool) :
    Sound w .empty reader allowed (start w reader allowed) where
  reader_eq := rfl
  allowed_eq := rfl
  tracks := RankingScorer.Tracks.fresh w reader _
  cache := ⟨.empty, rfl, ScoreCache.Extends.refl _⟩
  given := fun _ hx => nomatch hx
  free := fun _ _ _ _ => Std.TreeMap.getElem?_emptyc
  stands := ⟨0, rfl, Nat.zero_le _, rfl⟩

/-- What another search records is of another segment. -/
theorem Sound.others (h : Sound w shared reader allowed t) {key : Nat} (scores : List Float32)
    (hkey : ∀ doc, 0 < doc → doc ≤ reader.maxDoc → key ≠ reader.docBase + doc) :
    Sound w (shared.insertOnce key scores) reader allowed t := by
  obtain ⟨mine, hmine, hextends⟩ := h.cache
  have hmore := shared.insertOnce_extends key scores
  refine ⟨h.reader_eq, h.allowed_eq, h.tracks, ⟨mine, hmine, hmore.trans hextends⟩, ?_, ?_, h.stands⟩
  · intro x hx
    obtain ⟨v, hv, hvalue, hget⟩ := h.given x hx
    exact ⟨v, hv, hvalue, hmore _ _ hget⟩
  · intro doc hpos hle hnew
    rw [ScoreCache.get?_insertOnce, if_neg (fun heq => hkey doc hpos hle heq.1.symm)]
    exact h.free doc hpos hle hnew

/-- A scorer that sees what others recorded is in a state that it may be in. -/
theorem Sound.sharing (h : Sound w shared reader allowed t) :
    RankingScorer.Tracks w reader (t.scorer.sharing shared) := by
  obtain ⟨mine, hmine, hextends⟩ := h.cache
  refine h.tracks.record ?_ h.tracks.vector
  intro doc hheld
  unfold Disjunction.isHeld at hheld
  rw [hmine] at hheld
  have hheld : mine.contains (t.scorer.walk.absolute doc) = true := hheld
  cases hget : mine.get? (t.scorer.walk.absolute doc) with
  | none =>
      rw [ScoreCache.contains_eq_false.mpr hget] at hheld
      exact nomatch hheld
  | some scores => exact ScoreCache.contains_of_get? (hextends _ _ hget)

/-- A document that was not scored is in neither the shared cache nor what the
    search has seen of it. -/
theorem Sound.not_held (h : Sound w shared reader allowed t) {doc : Nat} (hpos : 0 < doc)
    (hle : doc ≤ reader.maxDoc) (hnew : doc ∉ t.found.map (·.1)) :
    t.scorer.walk.isHeld doc = false := by
  obtain ⟨mine, hmine, hextends⟩ := h.cache
  have hfree := h.free doc hpos hle hnew
  unfold Disjunction.isHeld Disjunction.absolute
  rw [hmine, h.tracks.docBase]
  refine ScoreCache.contains_eq_false.mpr ?_
  cases hget : mine.get? (reader.docBase + doc) with
  | none => rfl
  | some scores =>
      rw [hextends _ _ hget] at hfree
      exact nomatch hfree

/-- A document beyond those that were scored was not. -/
theorem not_mem_found {last doc : Nat}
    (hfound : t.found.map (·.1) = (List.range' 1 last).filter allowed) (hlt : last < doc) :
    doc ∉ t.found.map (·.1) := by
  rw [hfound]
  intro hmem
  have := List.mem_range'_1.mp (List.mem_filter.mp hmem).1
  omega

/-- The allowed documents up to one of them. -/
theorem filter_range' (allowed : Nat → Bool) {doc : Nat} (hpos : 0 < doc) :
    (List.range' 1 doc).filter allowed
      = (List.range' 1 (doc - 1)).filter allowed ++ if allowed doc then [doc] else [] := by
  obtain ⟨before, rfl⟩ : ∃ before, doc = before + 1 := ⟨doc - 1, by omega⟩
  rw [List.range'_concat, List.filter_append, Nat.add_sub_cancel, Nat.one_mul, Nat.add_comm 1]
  refine congrArg (List.filter allowed (List.range' 1 before) ++ ·) ?_
  rw [List.filter_cons, List.filter_nil]

/-- How many steps a search can still take. -/
def left (t : SegmentSearch) : Nat :=
  match t.phase, stop t.scorer with
  | .done, _ => 0
  | .move, .doc here => 3 * (t.reader.maxDoc - here) + 1
  | .look _, .doc here => 3 * (t.reader.maxDoc - here) + 3
  | .record _ _, .doc here => 3 * (t.reader.maxDoc - here) + 2
  | _, .exhausted => 0

/-- What one step of a search comes to: the cache stays or gets the scores of one
    document of the segment. -/
inductive Writes (w : RankingWeight) (reader : SegmentReader) (before : ScoreCache) :
    ScoreCache → Prop where
  | nothing : Writes w reader before before
  | scores {doc : Nat} {v : FeatureVector} (hpos : 0 < doc) (hle : doc ≤ reader.maxDoc)
      (hdescribes : w.Describes reader.segment doc v) :
      Writes w reader before (before.insertOnce (reader.docBase + doc) (v.kept 0 w.weights.length))

theorem Sound.move (h : Sound w shared reader allowed t) {here : Nat} (hphase : t.phase = .move)
    (hstop : stop t.scorer = .doc here) (hle : here ≤ reader.maxDoc)
    (hfound : t.found.map (·.1) = (List.range' 1 here).filter allowed) :
    ∃ t', t.step shared = .ok (shared, t') ∧ Sound w shared reader allowed t' ∧ t'.left < t.left := by
  have hshared := h.sharing
  have hstart : stop (t.scorer.sharing shared) = .doc here := hstop
  have hleft : t.left = 3 * (reader.maxDoc - here) + 1 := by
    unfold left
    rw [hphase, hstop, h.reader_eq]
  have hnext : DocWalk.next (t.scorer.sharing shared)
      = DocWalk.advance (here + 1) (t.scorer.sharing shared) := next_doc hstart
  have htracks := hshared.advance hstart (Nat.lt_succ_self here)
  have hcache : (DocWalk.advance (here + 1) (t.scorer.sharing shared)).walk.cache = some shared :=
    RankingScorer.cache_advance _ _
  have hthere := hshared.advance_stop (Nat.succ_pos here)
  by_cases hmore : here + 1 ≤ reader.maxDoc
  · rw [if_pos hmore] at hthere
    have hdocs := filter_range' allowed (Nat.succ_pos here)
    rw [Nat.succ_sub_one] at hdocs
    refine ⟨_, by simp only [step, hphase, hnext, hthere]; rfl, ?_, ?_⟩
    · refine ⟨h.reader_eq, h.allowed_eq, htracks, ⟨shared, hcache, ScoreCache.Extends.refl _⟩, h.given,
        h.free, ?_⟩
      unfold Stands
      by_cases hallowed : t.allowed (here + 1) = true
      · simp only [if_pos hallowed]
        rw [h.allowed_eq] at hallowed
        exact ⟨hthere, Nat.succ_pos here, hallowed, hfound⟩
      · simp only [if_neg hallowed]
        rw [h.allowed_eq] at hallowed
        rw [if_neg hallowed, List.append_nil] at hdocs
        exact ⟨here + 1, hthere, hmore, by rw [hfound, hdocs]⟩
    · rw [hleft]
      unfold left
      rw [hthere, h.reader_eq]
      by_cases hallowed : t.allowed (here + 1) = true
      · rw [if_pos hallowed]
        show 3 * (reader.maxDoc - (here + 1)) + 3 < _
        omega
      · rw [if_neg hallowed]
        show 3 * (reader.maxDoc - (here + 1)) + 1 < _
        omega
  · rw [if_neg hmore] at hthere
    have hlast : here = reader.maxDoc := by omega
    refine ⟨_, by simp only [step, hphase, hnext, hthere]; rfl, ?_, ?_⟩
    · refine ⟨h.reader_eq, h.allowed_eq, htracks, ⟨shared, hcache, ScoreCache.Extends.refl _⟩, h.given,
        h.free, ?_⟩
      show t.found.map (·.1) = _
      rw [hfound, hlast]
    · rw [hleft]
      exact Nat.succ_pos _

theorem Sound.look (h : Sound w shared reader allowed t) (hbuilt : reader.segment.Built)
    (hcount : w.weights.length ≤ w.ranker.featureCount) {doc : Nat} (hphase : t.phase = .look doc)
    (hstop : stop t.scorer = .doc doc) (hpos : 0 < doc) (hallowed : allowed doc = true)
    (hfound : t.found.map (·.1) = (List.range' 1 (doc - 1)).filter allowed) :
    ∃ t', t.step shared = .ok (shared, t') ∧ Sound w shared reader allowed t' ∧ t'.left < t.left := by
  have hle : doc ≤ reader.maxDoc := h.tracks.inside doc hstop
  have hnew := not_mem_found hfound (show doc - 1 < doc by omega)
  obtain ⟨c, hc, hdescribes, hscores⟩ := h.tracks.collect_free hbuilt hcount hstop hpos
    (h.not_held hpos hle hnew)
  -- nobody else records the document, so it is not there
  have hreplay : shared.replay (t.scorer.walk.absolute doc)
      (t.scorer.ranker.newVector t.scorer.vector) = .ok none := by
    unfold ScoreCache.replay Disjunction.absolute
    rw [h.tracks.docBase, h.free doc hpos hle hnew]
    rfl
  rw [← h.tracks.newVector] at hc
  refine ⟨{ t with phase := .record doc c }, ?_, ?_, ?_⟩
  · simp only [step, hphase]
    exact bind_eq_ok.mpr ⟨none, hreplay, bind_eq_ok.mpr ⟨c, hc, rfl⟩⟩
  · exact ⟨h.reader_eq, h.allowed_eq, h.tracks, h.cache, h.given, h.free,
      ⟨hstop, hpos, hallowed, hfound, hdescribes, hscores⟩⟩
  · unfold left
    rw [hphase, hstop]
    exact Nat.lt_succ_self _

theorem Sound.record (h : Sound w shared reader allowed t) {doc : Nat}
    {c : RankingScorer.Collected} (hphase : t.phase = .record doc c)
    (hstop : stop t.scorer = .doc doc) (hpos : 0 < doc) (hallowed : allowed doc = true)
    (hfound : t.found.map (·.1) = (List.range' 1 (doc - 1)).filter allowed)
    (hdescribes : w.Describes reader.segment doc c.vector)
    (hscores : c.scores = c.vector.kept 0 w.weights.length) :
    ∃ t', t.step shared = .ok (shared.insertOnce (reader.docBase + doc)
        (c.vector.kept 0 w.weights.length), t') ∧
      Sound w (shared.insertOnce (reader.docBase + doc) (c.vector.kept 0 w.weights.length)) reader
        allowed t' ∧ t'.left < t.left := by
  have hle : doc ≤ reader.maxDoc := h.tracks.inside doc hstop
  have hnew := not_mem_found hfound (show doc - 1 < doc by omega)
  have hdocs : (t.give doc c.vector).found.map (·.1) = (List.range' 1 doc).filter allowed := by
    rw [filter_range' allowed hpos, if_pos hallowed, ← hfound]
    exact List.map_append
  obtain ⟨mine, hmine, hextends⟩ := h.cache
  have hmore := shared.insertOnce_extends (reader.docBase + doc) (c.vector.kept 0 w.weights.length)
  refine ⟨t.give doc c.vector, ?_, ⟨h.reader_eq, h.allowed_eq, ?_, ⟨mine, hmine, hmore.trans hextends⟩,
    ?_, ?_, ⟨doc, hstop, hle, hdocs⟩⟩, ?_⟩
  · simp only [step, hphase, Disjunction.absolute, h.tracks.docBase, hscores]
    rfl
  · refine h.tracks.record (fun _ hheld => hheld) ?_
    intro v hv
    rw [← Option.some.inj hv]
    exact ⟨hdescribes.size, hdescribes.default⟩
  · intro x hx
    rcases List.mem_append.mp hx with hx | hx
    · obtain ⟨v, hv, hvalue, hget⟩ := h.given x hx
      exact ⟨v, hv, hvalue, hmore _ _ hget⟩
    · rw [List.mem_singleton.mp hx]
      refine ⟨c.vector, hdescribes, by rw [h.tracks.ranker], ?_⟩
      rw [ScoreCache.get?_insertOnce, if_pos ⟨rfl, h.free doc hpos hle hnew⟩]
  · intro other hother hinside hnotin
    have hneither : other ∉ t.found.map (·.1) ∧ other ≠ doc := by
      refine ⟨fun hmem => hnotin ?_, fun heq => hnotin ?_⟩
      · exact List.map_append ▸ List.mem_append_left _ hmem
      · rw [heq]
        exact List.map_append ▸ List.mem_append_right _ (List.mem_singleton_self doc)
    rw [ScoreCache.get?_insertOnce, if_neg (fun heq => hneither.2 (by omega))]
    exact h.free other hother hinside hneither.1
  · have hgiven : (t.give doc c.vector).left = 3 * (t.reader.maxDoc - doc) + 1 := by
      unfold left
      rw [show stop (t.give doc c.vector).scorer = .doc doc from hstop]
      rfl
    rw [hgiven]
    unfold left
    rw [hphase, hstop]
    exact Nat.lt_succ_self _

/-- **A step of a search**: it never faults, it writes at most the scores of one
    document of its segment, and it comes closer to the end. -/
theorem Sound.step (h : Sound w shared reader allowed t) (hbuilt : reader.segment.Built)
    (hcount : w.weights.length ≤ w.ranker.featureCount) (hbusy : t.phase ≠ .done) :
    ∃ after t', t.step shared = .ok (after, t') ∧ Sound w after reader allowed t' ∧
      Writes w reader shared after ∧ t'.left < t.left := by
  have hstands := h.stands
  unfold Stands at hstands
  cases hphase : t.phase with
  | move =>
      rw [hphase] at hstands
      obtain ⟨here, hstop, hle, hfound⟩ := hstands
      obtain ⟨t', hstep, hsound, hleft⟩ := h.move hphase hstop hle hfound
      exact ⟨shared, t', hstep, hsound, Writes.nothing, hleft⟩
  | look doc =>
      rw [hphase] at hstands
      obtain ⟨hstop, hpos, hallowed, hfound⟩ := hstands
      obtain ⟨t', hstep, hsound, hleft⟩ := h.look hbuilt hcount hphase hstop hpos hallowed hfound
      exact ⟨shared, t', hstep, hsound, Writes.nothing, hleft⟩
  | record doc c =>
      rw [hphase] at hstands
      obtain ⟨hstop, hpos, hallowed, hfound, hdescribes, hscores⟩ := hstands
      obtain ⟨t', hstep, hsound, hleft⟩ :=
        h.record hphase hstop hpos hallowed hfound hdescribes hscores
      exact ⟨_, t', hstep, hsound, Writes.scores hpos (h.tracks.inside doc hstop) hdescribes, hleft⟩
  | done => exact absurd hphase hbusy

/-- A search has scored the allowed documents up to one. -/
theorem Sound.upTo (h : Sound w shared reader allowed t) :
    ∃ last ≤ reader.maxDoc, t.found.map (·.1) = (List.range' 1 last).filter allowed := by
  have hstands := h.stands
  unfold Stands at hstands
  cases hphase : t.phase with
  | move =>
      rw [hphase] at hstands
      obtain ⟨here, -, hle, hfound⟩ := hstands
      exact ⟨here, hle, hfound⟩
  | look doc =>
      rw [hphase] at hstands
      obtain ⟨hstop, -, -, hfound⟩ := hstands
      exact ⟨doc - 1, Nat.le_trans (Nat.sub_le doc 1) (h.tracks.inside doc hstop), hfound⟩
  | record doc c =>
      rw [hphase] at hstands
      obtain ⟨hstop, -, -, hfound, -, -⟩ := hstands
      exact ⟨doc - 1, Nat.le_trans (Nat.sub_le doc 1) (h.tracks.inside doc hstop), hfound⟩
  | done =>
      rw [hphase] at hstands
      exact ⟨reader.maxDoc, Nat.le_refl _, hstands⟩

/-- Scores whose documents are the first ones of a list, and which agree with it, are
    its first scores. -/
theorem prefix_of_docs {scores : List (Nat × Float32)} :
    ∀ {all : List (Nat × Float32)}, scores.map (·.1) <+: all.map (·.1) →
      (∀ x ∈ scores, ∀ y ∈ all, x.1 = y.1 → x.2 = y.2) → scores <+: all := by
  induction scores with
  | nil => intro all _ _; exact List.nil_prefix
  | cons x rest ih =>
      intro all hdocs hsame
      cases all with
      | nil => exact nomatch List.prefix_nil.mp hdocs
      | cons y others =>
          obtain ⟨hdoc, hrest⟩ := List.cons_prefix_cons.mp hdocs
          have hscore := hsame x List.mem_cons_self y List.mem_cons_self hdoc
          refine List.cons_prefix_cons.mpr ⟨Prod.ext hdoc hscore, ih hrest ?_⟩
          intro a ha b hb
          exact hsame a (List.mem_cons_of_mem _ ha) b (List.mem_cons_of_mem _ hb)

/-- **What a search gives is what it gives alone**: the first scores of the pass over
    the segment, and all of them once it is done. -/
theorem Sound.alone (h : Sound w shared reader allowed t) (hbuilt : reader.segment.Built)
    (hcount : w.weights.length ≤ w.ranker.featureCount) :
    ∃ scores after, (QueryWeight.ranking w).pass reader allowed (some .empty) = .ok (scores, after) ∧
      t.found <+: scores.map (fun x => (x.1, x.2.value)) ∧
      (t.phase = .done → t.found = scores.map fun x => (x.1, x.2.value)) := by
  obtain ⟨scores, after, hpass, hdocs, hscores, -⟩ := RankingWeight.pass_under none hbuilt hcount
    allowed (Free.empty [reader])
  obtain ⟨last, hlast, hfound⟩ := h.upTo
  have hkeys : (scores.map fun x => (x.1, x.2.value)).map (·.1)
      = (List.range' 1 reader.maxDoc).filter allowed := by
    rw [List.map_map]
    exact hdocs
  have hsplit : List.range' 1 last ++ List.range' (1 + last) (reader.maxDoc - last)
      = List.range' 1 reader.maxDoc := by
    rw [List.range'_append_1, Nat.add_sub_cancel' hlast]
  have hprefix : t.found <+: scores.map fun x => (x.1, x.2.value) := by
    refine prefix_of_docs ?_ ?_
    · rw [hkeys, hfound, ← hsplit, List.filter_append]
      exact List.prefix_append _ _
    · intro x hx y hy hdoc
      obtain ⟨v, hv, hvalue, -⟩ := h.given x hx
      obtain ⟨z, hz, rfl⟩ := List.mem_map.mp hy
      obtain ⟨v', -, hv', hvalue'⟩ := hscores z hz
      have hdoc : x.1 = z.1 := hdoc
      rw [hdoc] at hv
      rw [hvalue, hv.unique hv']
      exact hvalue'.symm
  refine ⟨scores, after, hpass, hprefix, ?_⟩
  intro hdone
  have hstands := h.stands
  unfold Stands at hstands
  rw [hdone] at hstands
  refine hprefix.eq_of_length ?_
  rw [← List.length_map (f := fun x : Nat × Float32 => x.1), hstands, ← hkeys, List.length_map]

end SegmentSearch

end FeatureRank
