import FeatureRank.Proofs.Feature.Rendering

/-! # Requirements — which parameters a compiled set asks for

    Compiling keeps a stored feature as it is unless it is a sum, and of a sum it keeps
    the name and the inputs only (`StoredFeatureSet.compile_features`).  So the
    parameters that a sum declares are not asked for: the queries of a compiled set are
    made just when every other feature is supplied, and else the first of those that is
    not is named (`StoredFeatureSet.queries_of_compiled`). -/

namespace FeatureRank

/-- What a stored feature is compiled to. -/
inductive StoredFeature.Compiles (f : StoredFeature) : Feature → Prop where
  | stored (h : ¬f.template.IsDerived) : Compiles f (.stored f)
  | sum (h : f.template.IsDerived) (sum : DerivedSum) : Compiles f (.derived f.name sum)

/-- Whether a feature gets its query once it is compiled: a sum always does. -/
def StoredFeature.Answered (f : StoredFeature) (params : Params) : Prop :=
  ¬f.template.IsDerived → f.Supplied params

namespace StoredFeature.Compiles

variable {f : StoredFeature} {feature : Feature} {context : QueryContext} {params : Params}

/-- The query of a compiled feature is that of the stored one, or a sum. -/
theorem query (h : f.Compiles feature) {q : FeatureQuery}
    (hq : feature.query context params = .ok q) :
    (f.template.IsDerived ∧ ∃ sum, q = .derived sum) ∨ f.query context params = .ok q := by
  cases h with
  | stored _ => exact .inr hq
  | sum hderived sum => exact .inl ⟨hderived, sum, (Except.ok.inj hq).symm⟩

theorem query_okIff (h : f.Compiles feature) (context : QueryContext) (params : Params) :
    (∃ q, feature.query context params = .ok q) ↔ f.Answered params := by
  cases h with
  | stored hderived =>
      rw [Answered, imp_iff_right hderived]
      rcases f.query_okIff hderived context params with ⟨hsupplied, hok⟩ | ⟨hnot, _, herror, -⟩
      · exact iff_of_true hok hsupplied
      · refine iff_of_false ?_ hnot
        rintro ⟨q, hq⟩
        exact nomatch hq.symm.trans herror
  | sum hderived sum => exact iff_of_true ⟨.derived sum, rfl⟩ fun hnot => absurd hderived hnot

/-- **A compiled feature that has no query names the stored one** and what it lacks. -/
theorem refusal (h : f.Compiles feature) {refusal : Refusal}
    (hrefused : feature.query context params = .error refusal) :
    ¬f.template.IsDerived ∧ ¬f.Supplied params ∧
      refusal = .missingParameters f.name (f.lacking params) := by
  cases h with
  | stored hderived =>
      have hlacks : ¬f.Supplied params := by
        intro hsupplied
        obtain ⟨q, hq⟩ := ((Compiles.stored hderived).query_okIff context params).mpr fun _ => hsupplied
        exact nomatch hq.symm.trans hrefused
      exact ⟨hderived, hlacks, Except.error.inj
        (hrefused.symm.trans (f.query_of_lacking hderived context hlacks))⟩
  | sum _ sum => exact nomatch hrefused

/-- Compiling keeps names. -/
theorem name_eq (h : f.Compiles feature) : f.name = feature.name := by
  cases h with
  | stored _ => rfl
  | sum _ _ => rfl

end StoredFeature.Compiles

namespace StoredFeatureSet

variable {s : StoredFeatureSet} {set : FeatureSet}

theorem compileFrom_compiles {earlier : List String} {stored : List StoredFeature}
    {features : List Feature} (h : compileFrom earlier stored = .ok features) :
    List.Forall₂ StoredFeature.Compiles stored features := by
  refine (compileFrom_cases h).imp fun f feature => ?_
  rintro (⟨hstored, rfl⟩ | ⟨hderived, sum, rfl, -⟩)
  · exact .stored hstored
  · exact .sum hderived sum

/-- **A compiled set** has the stored features one by one, sums in the place of sums. -/
theorem compile_features (h : s.compile = .ok set) :
    List.Forall₂ StoredFeature.Compiles s.features set.features := by
  obtain ⟨features, hfeatures, hset⟩ := bind_eq_ok.mp h
  rw [FeatureSet.features_of_make hset]
  exact compileFrom_compiles hfeatures

/-- **A compiled set asks for the parameters of its features, sums apart.**  The queries
    of a compiled set are made just when every feature that is no sum is given all that it
    declares or has placeholders for, one query for each feature in order.  Else the first
    such feature that lacks something is named with what it lacks.  So to be given all that
    its features declare is more than the set asks for exactly when a sum lacks some of what
    it declares while no other feature lacks anything. -/
theorem queries_of_compiled (h : s.compile = .ok set) (context : QueryContext) (params : Params) :
    ((∃ queries, set.queries context params = .ok queries) ↔
        ∀ f ∈ s.features, ¬f.template.IsDerived → f.Supplied params) ∧
      (∀ queries, set.queries context params = .ok queries →
        List.Forall₂ (fun f q => (f.template.IsDerived ∧ ∃ sum, q = .derived sum) ∨
          f.query context params = .ok q) s.features queries) ∧
      (∀ refusal, set.queries context params = .error refusal →
        ∃ (i : Nat) (f : StoredFeature), s.features[i]? = some f ∧
          ¬f.template.IsDerived ∧ ¬f.Supplied params ∧
          (∀ j < i, ∀ earlier, s.features[j]? = some earlier → ¬earlier.template.IsDerived →
            earlier.Supplied params) ∧
          refusal = .missingParameters f.name (f.lacking params)) ∧
      (((∃ queries, set.queries context params = .ok queries) ↔
          ∀ f ∈ s.features, f.Supplied params) ↔
        ¬((∀ f ∈ s.features, ¬f.template.IsDerived → f.Supplied params) ∧
          ∃ f ∈ s.features, f.template.IsDerived ∧ ¬f.Supplied params)) := by
  have hcompiled := compile_features h
  have hiff : (∃ queries, set.queries context params = .ok queries) ↔
      ∀ f ∈ s.features, f.Answered params := by
    constructor
    · rintro ⟨queries, hqueries⟩ f hf
      obtain ⟨feature, hfeature, hcompiles⟩ := forall₂_mem hcompiled hf
      obtain ⟨q, -, hq⟩ := forall₂_mem (mapM_eq_ok.mp hqueries) hfeature
      exact (hcompiles.query_okIff context params).mp ⟨q, hq⟩
    · intro hall
      refine mapM_ok fun feature hfeature => ?_
      obtain ⟨f, hf, hcompiles⟩ := forall₂_mem hcompiled.flip hfeature
      exact (StoredFeature.Compiles.query_okIff hcompiles context params).mpr (hall f hf)
  refine ⟨hiff, ?_, ?_, ?_⟩
  · intro queries hqueries
    exact forall₂_comp hcompiled (mapM_eq_ok.mp hqueries) fun f feature q hf hq => hf.query hq
  · intro refusal hrefused
    obtain ⟨i, feature, hfeature, herror, hbefore⟩ := mapM_error hrefused
    obtain ⟨f, hf, hcompiles⟩ := forall₂_getElem? hcompiled.flip hfeature
    obtain ⟨hderived, hlacks, hrefusal⟩ := StoredFeature.Compiles.refusal hcompiles herror
    refine ⟨i, f, hf, hderived, hlacks, fun j hj earlier hearlier => ?_, hrefusal⟩
    obtain ⟨other, hother, hcompiles⟩ := forall₂_getElem? hcompiled hearlier
    exact (hcompiles.query_okIff context params).mp (hbefore j hj other hother)
  · rw [hiff]
    constructor
    · rintro hclaim ⟨hothers, f, hf, -, hlacks⟩
      exact hlacks (hclaim.mp hothers f hf)
    · intro hnone
      refine ⟨fun hothers f hf => ?_, fun hall f hf _ => hall f hf⟩
      by_contra hlacks
      refine hnone ⟨hothers, f, hf, ?_, hlacks⟩
      by_contra hderived
      exact hlacks (hothers f hf hderived)

/-- A sum gets its query without the parameter that it declares. -/
theorem queries_of_compiled_sum :
    let s : StoredFeatureSet := ⟨"set", [⟨"two", [], .constant 2.0⟩,
      ⟨"sum", ["keywords"], .derived [⟨"two", 1.0⟩] 0.0 false⟩]⟩
    ∃ set, s.compile = .ok set ∧ (∃ queries, set.queries .empty [] = .ok queries) ∧
      ¬((∃ queries, set.queries .empty [] = .ok queries) ↔ ∀ f ∈ s.features, f.Supplied []) := by
  intro s
  have hcompile : s.compile = .ok ⟨"set", [.stored ⟨"two", [], .constant 2.0⟩,
      .derived "sum" ⟨[(0, 1.0)], 0.0, none⟩]⟩ := rfl
  obtain ⟨hiff, -, -, hclaim⟩ := queries_of_compiled hcompile .empty []
  have hothers : ∀ f ∈ s.features, ¬f.template.IsDerived → f.Supplied [] := by
    intro f hf hderived
    obtain rfl | rfl : f = _ ∨ f = _ := by simpa [s] using hf
    · exact fun name hname => nomatch hname
    · exact absurd trivial hderived
  refine ⟨_, hcompile, hiff.mpr hothers, fun h => hclaim.mp h ⟨hothers, _,
    List.mem_cons_of_mem _ List.mem_cons_self, trivial, fun hsupplied => ?_⟩⟩
  exact nomatch hsupplied "keywords" List.mem_cons_self

end StoredFeatureSet

end FeatureRank
