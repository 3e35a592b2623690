import FeatureRank.Proofs.Search.Agreement
import FeatureRank.Proofs.Search.Counting

/-! # Compiled models

    A feature of a compiled model is a stored one, or a sum over features of the model
    (`Feature.Compiled`).  So all that can be missing when such a model is made into a
    ranking query are parameters (`RankingQuery.ofModel_okIff`), and the ranking query
    can always be tied to its vector (`RankingQuery.bindable_of_compiled`). -/

namespace FeatureRank

open Tracked

/-! ## What a feature needs -/

/-- The name that a placeholder asks for. -/
def Piece.key? : Piece → Option String
  | .literal _ => none
  | .placeholder key => some key

namespace Template

/-- The text of a template, if it has one. -/
def text? : Template → Option String
  | .anyTerm text | .phrase text | .languageModel text => some text
  | .constant _ | .derived .. => none

/-- The names that the placeholders of a template ask for. -/
def placeholders (t : Template) : List String :=
  t.text?.elim [] fun text => (Piece.ofText text.toList).filterMap (·.key?)

def IsDerived : Template → Prop
  | .derived .. => True
  | _ => False

end Template

/-- Whether all parameters are given that a feature declares or has placeholders for. -/
def StoredFeature.Supplied (f : StoredFeature) (params : Params) : Prop :=
  ∀ name ∈ f.params ++ f.template.placeholders, (params.lookup name).isSome = true

/-- A refusal that parameters are missing. -/
def Refusal.IsMissing : Refusal → Prop
  | .missingParameters .. => True
  | _ => False

theorem Piece.fill_okIff (params : Params) (pieces : List Piece) :
    OkIff (fun _ => True) (Piece.fill params pieces)
      (∀ key ∈ pieces.filterMap (·.key?), (params.lookup key).isSome = true) := by
  induction pieces with
  | nil => exact (OkIff.ok []).of_iff (iff_of_true trivial (List.forall_mem_nil _))
  | cons first rest ih =>
      cases first with
      | literal text => exact ih.bind_ok fun _ => ⟨_, rfl⟩
      | placeholder key =>
          have hkeys : (Piece.placeholder key :: rest).filterMap (·.key?)
              = key :: rest.filterMap (·.key?) := rfl
          rw [hkeys, Piece.fill]
          cases hkey : params.lookup key with
          | none =>
              refine .error trivial fun hall => ?_
              have hheld := hall key List.mem_cons_self
              rw [hkey] at hheld
              cases hheld
          | some value =>
              refine (ih.bind_ok fun _ => ⟨_, rfl⟩).of_iff ?_
              rw [List.forall_mem_cons, hkey]
              exact (and_iff_right rfl).symm

/-- A query that is no sum and has none under it. -/
def FeatureQuery.Sumless : FeatureQuery → Prop
  | .boost query _ => query.Sumless
  | .derived _ | .bound _ => False
  | _ => True

/-- A query without sums is tied as it is. -/
theorem FeatureQuery.Sumless.bind {q : FeatureQuery} (h : q.Sumless) (features : Nat) :
    q.bind features = .ok q := by
  induction q with
  | boost inner factor ih =>
      have hinner : inner.bind features = .ok inner := ih h
      rw [FeatureQuery.bind, hinner]
  | derived sum => exact h.elim
  | bound sum => exact h.elim
  | _ => rfl

namespace StoredFeature

variable {f : StoredFeature} {params : Params}

theorem render_okIff (f : StoredFeature) (params : Params) (text : String) :
    OkIff Refusal.IsMissing (f.render params text)
      (∀ key ∈ (Piece.ofText text.toList).filterMap (·.key?),
        (params.lookup key).isSome = true) := by
  unfold render
  rcases Piece.fill_okIff params (Piece.ofText text.toList) with ⟨hp, rendered, h⟩ | ⟨hp, key, h, -⟩
  · rw [h]
    exact .inl ⟨hp, _, rfl⟩
  · rw [h]
    exact .error trivial hp

/-- All declared parameters are given when none is missing. -/
theorem missing_eq_nil : f.missing params = [] ↔
    ∀ name ∈ f.params, (params.lookup name).isSome = true := by
  simp [missing, List.filter_eq_nil_iff]

/-- **A feature that is no sum has a query when all that it needs is supplied**, and else
    is refused for want of parameters. -/
theorem query_okIff (hderived : ¬f.template.IsDerived) (context : QueryContext)
    (params : Params) :
    OkIff Refusal.IsMissing (f.query context params) (f.Supplied params) := by
  have hsupplied : f.Supplied params ↔ (∀ name ∈ f.params, (params.lookup name).isSome = true) ∧
      ∀ key ∈ f.template.placeholders, (params.lookup key).isSome = true :=
    List.forall_mem_append
  rw [hsupplied, ← missing_eq_nil]
  unfold query
  cases hmissing : f.missing params with
  | cons name rest => exact .error trivial fun h => nomatch h.1
  | nil =>
      have hrendered : ∀ {t : Template} {text : String} (make : String → FeatureQuery),
          t.text? = some text →
          OkIff Refusal.IsMissing (do return make (← f.render params text))
            ([] = ([] : List String) ∧ ∀ key ∈ t.placeholders,
              (params.lookup key).isSome = true) := by
        intro t text make htext
        refine ((f.render_okIff params text).bind_ok fun _ => ⟨_, rfl⟩).of_iff ?_
        rw [Template.placeholders, htext]
        exact (and_iff_right rfl).symm
      cases htemplate : f.template with
      | anyTerm text => exact hrendered (fun text => .anyTerm (context.terms text)) rfl
      | phrase text => exact hrendered (fun text => .phrase (context.phrase text)) rfl
      | languageModel text => exact hrendered (fun text => .languageModel (context.terms text)) rfl
      | constant score => exact .inl ⟨⟨rfl, List.forall_mem_nil _⟩, _, rfl⟩
      | derived inputs constant logged =>
          rw [htemplate] at hderived
          exact absurd trivial hderived

/-- A stored feature makes no sum. -/
theorem query_sumless {context : QueryContext} {q : FeatureQuery}
    (h : f.query context params = .ok q) : q.Sumless := by
  have hrendered : ∀ {text : String} {make : String → FeatureQuery},
      (do return make (← f.render params text)) = .ok q → (∀ text, (make text).Sumless) →
      q.Sumless := by
    intro text make h hmake
    obtain ⟨rendered, -, h⟩ := bind_eq_ok.mp h
    rw [← Except.ok.inj h]
    exact hmake rendered
  unfold query at h
  split at h
  · split at h
    · exact hrendered h fun _ => trivial
    · exact hrendered h fun _ => trivial
    · exact hrendered h fun _ => trivial
    · rw [← Except.ok.inj h]
      trivial
    · exact nomatch h
  · exact nomatch h

/-- The query of a feature that is no sum asks for no vector. -/
theorem bind_query {context : QueryContext} {q : FeatureQuery}
    (h : f.query context params = .ok q) (features : Nat) : q.bind features = .ok q :=
  (query_sumless h).bind features

end StoredFeature

/-! ## Compiled features -/

/-- A feature of a compiled set: a stored one that is no sum, or a sum over features of
    the set. -/
def Feature.Compiled (features : Nat) : Feature → Prop
  | .stored f => ¬f.template.IsDerived
  | .derived _ sum => ∀ x ∈ sum.inputs, x.1 < features
  | .prebuilt .. => False

namespace StoredFeatureSet

/-- **Names resolve to the ordinals that have them**, input by input. -/
theorem resolve_eq_ok {feature : String} {earlier : List String} {inputs : List DerivedInput} :
    ∀ {resolved : List (Nat × Float32)}, resolve feature earlier inputs = .ok resolved →
      List.Forall₂ (fun input x => earlier.idxOf? input.feature = some x.1 ∧ x.2 = input.weight)
        inputs resolved := by
  induction inputs with
  | nil =>
      intro resolved h
      rw [← Except.ok.inj h]
      exact .nil
  | cons input rest ih =>
      intro resolved h
      unfold resolve at h
      split at h
      · next ordinal hordinal =>
          obtain ⟨others, hothers, h⟩ := bind_eq_ok.mp h
          rw [← Except.ok.inj h]
          exact .cons ⟨hordinal, rfl⟩ (ih hothers)
      · exact nomatch h

theorem resolve_lt {feature : String} {earlier : List String} {inputs : List DerivedInput}
    {resolved : List (Nat × Float32)} (h : resolve feature earlier inputs = .ok resolved) :
    ∀ x ∈ resolved, x.1 < earlier.length := by
  intro x hx
  obtain ⟨input, -, hordinal, -⟩ := forall₂_mem (resolve_eq_ok h).flip hx
  exact (List.findIdx?_eq_some_iff_getElem.mp hordinal).1

/-- A compiled feature: the stored one, if it is no sum. -/
theorem compileFeature_cases {earlier : List String} {f : StoredFeature} {feature : Feature}
    (h : compileFeature earlier f = .ok feature) :
    (¬f.template.IsDerived ∧ feature = .stored f) ∨
      (f.template.IsDerived ∧ ∃ sum : DerivedSum, feature = .derived f.name sum ∧
        ∀ x ∈ sum.inputs, x.1 < earlier.length) := by
  unfold compileFeature at h
  split at h
  · next inputs constant logged htemplate =>
      obtain ⟨resolved, hresolved, h⟩ := bind_eq_ok.mp h
      rw [htemplate]
      exact .inr ⟨trivial, _, (Except.ok.inj h).symm, resolve_lt hresolved⟩
  · next hnot =>
      refine .inl ⟨fun hderived => ?_, (Except.ok.inj h).symm⟩
      cases htemplate : f.template with
      | derived inputs constant logged => exact hnot _ _ _ htemplate
      | _ =>
          rw [htemplate] at hderived
          exact hderived

theorem compileFrom_cases {stored : List StoredFeature} :
    ∀ {earlier : List String} {features : List Feature},
      compileFrom earlier stored = .ok features →
      List.Forall₂ (fun f feature => (¬f.template.IsDerived ∧ feature = .stored f) ∨
        (f.template.IsDerived ∧ ∃ sum : DerivedSum, feature = .derived f.name sum ∧
          ∀ x ∈ sum.inputs, x.1 < earlier.length + features.length)) stored features := by
  induction stored with
  | nil =>
      intro earlier features h
      rw [← Except.ok.inj h]
      exact .nil
  | cons f rest ih =>
      intro earlier features h
      obtain ⟨feature, hfeature, h⟩ := bind_eq_ok.mp h
      obtain ⟨others, hothers, h⟩ := bind_eq_ok.mp h
      rw [← Except.ok.inj h]
      have hlater := ih hothers
      rw [List.length_append, List.length_singleton, Nat.add_assoc, Nat.add_comm 1] at hlater
      refine .cons ?_ hlater
      rcases compileFeature_cases hfeature with hstored | ⟨hderived, sum, hsum, hin⟩
      · exact .inl hstored
      · exact .inr ⟨hderived, sum, hsum, fun x hx => Nat.lt_add_right _ (hin x hx)⟩

end StoredFeatureSet

/-- An accepted set has the features that it was made of. -/
theorem FeatureSet.features_of_make {name : String} {features : List Feature} {set : FeatureSet}
    (h : make name features = .ok set) : set.features = features := by
  unfold make at h
  split at h
  · exact nomatch h
  · rw [← Except.ok.inj h]

/-- **The features of a compiled set**, one by one. -/
theorem StoredFeatureSet.compiled_of_compile {s : StoredFeatureSet} {set : FeatureSet}
    (h : s.compile = .ok set) : ∀ feature ∈ set.features, feature.Compiled set.size := by
  obtain ⟨compiled, hcompiled, hset⟩ := bind_eq_ok.mp h
  intro feature hfeature
  show feature.Compiled set.features.length
  rw [FeatureSet.features_of_make hset] at hfeature ⊢
  obtain ⟨f, -, hcases⟩ := forall₂_mem (compileFrom_cases hcompiled).flip hfeature
  rw [List.length_nil, Nat.zero_add] at hcases
  rcases hcases with ⟨hstored, rfl⟩ | ⟨-, sum, rfl, hin⟩
  · exact hstored
  · exact hin

/-- The query of a compiled feature can be tied to the vector of its set. -/
theorem Feature.Compiled.bind {feature : Feature} {features : Nat} (h : feature.Compiled features)
    {context : QueryContext} {params : Params} {q : FeatureQuery}
    (hq : feature.query context params = .ok q) : ∃ tied, q.bind features = .ok tied := by
  cases feature with
  | stored f => exact ⟨q, StoredFeature.bind_query hq _⟩
  | derived name sum =>
      have hin : sum.inputs.find? (fun x => features ≤ x.1) = none := by
        refine List.find?_eq_none.mpr fun x hx hle => ?_
        exact Nat.not_le.mpr (h x hx) (of_decide_eq_true hle)
      rw [← Except.ok.inj hq]
      refine ⟨.bound sum, ?_⟩
      unfold FeatureQuery.bind
      simp only [hin]
  | prebuilt name query => exact h.elim

/-- The model of a file is accepted with the compiled features of the file. -/
theorem ModelFile.compile_eq_ok {file : ModelFile} {compilation : Nat} {model : Model}
    (h : file.compile compilation = .ok model) :
    file.features.compile = .ok model.features ∧ model.Accepted := by
  obtain ⟨features, hfeatures, h⟩ := bind_eq_ok.mp h
  obtain ⟨ranker, -, h⟩ := bind_eq_ok.mp h
  unfold Model.make at h
  split at h
  · next hcount =>
      rw [← Except.ok.inj h]
      exact ⟨hfeatures, if_pos hcount⟩
  · exact nomatch h

/-- A model that a file was compiled to. -/
def Model.Compiled (model : Model) : Prop :=
  ∃ (file : ModelFile) (compilation : Nat), file.compile compilation = .ok model

namespace Model.Compiled

variable {model : Model}

/-- The features of a compiled model are those of the file, one by one. -/
theorem parts (h : model.Compiled) :
    model.Accepted ∧ ∀ feature ∈ model.features.features, feature.Compiled model.features.size := by
  obtain ⟨file, compilation, h⟩ := h
  obtain ⟨hfeatures, haccepted⟩ := ModelFile.compile_eq_ok h
  exact ⟨haccepted, StoredFeatureSet.compiled_of_compile hfeatures⟩

theorem accepted (h : model.Compiled) : model.Accepted := h.parts.1

end Model.Compiled

/-- A query whose sums read only features that it has, so that they can be tied. -/
def RankingQuery.Bindable (q : RankingQuery) : Prop :=
  ∀ query ∈ q.queries, ∃ tied, query.bind q.ranker.featureCount = .ok tied

/-- **A compiled model has a ranking query when all that its features need is supplied.** -/
theorem RankingQuery.ofModel_okIff {model : Model} (hmodel : model.Compiled)
    (context : QueryContext) (params : Params) :
    OkIff Refusal.IsMissing (ofModel model context params)
      (∀ f, Feature.stored f ∈ model.features.features → f.Supplied params) := by
  have hfeatures : OkIff Refusal.IsMissing (model.features.queries context params)
      (∀ feature ∈ model.features.features, ∀ f, feature = .stored f → f.Supplied params) := by
    refine OkIff.mapM fun feature hfeature => ?_
    have hcompiled := hmodel.parts.2 feature hfeature
    cases feature with
    | stored f =>
        refine (StoredFeature.query_okIff hcompiled context params).of_iff ?_
        exact ⟨fun h g heq => Feature.stored.inj heq ▸ h, fun h => h f rfl⟩
    | derived name sum => exact (OkIff.ok _).of_iff (iff_of_true trivial fun f heq => nomatch heq)
    | prebuilt name query => exact hcompiled.elim
  refine (hfeatures.bind_ok fun _ => ⟨_, rfl⟩).of_iff ?_
  exact ⟨fun h f hf => h _ hf f rfl, fun h feature hmem f heq => h f (heq ▸ hmem)⟩

/-- The ranking query of a compiled model can be tied to its vector. -/
theorem RankingQuery.bindable_of_compiled {model : Model} (hmodel : model.Compiled)
    {context : QueryContext} {params : Params} {q : RankingQuery}
    (h : ofModel model context params = .ok q) : q.Bindable := by
  obtain ⟨hcount, -⟩ := RankingQuery.Accepted.size ⟨model, context, params, hmodel.accepted, h⟩
  obtain ⟨queries, hqueries, h⟩ := bind_eq_ok.mp h
  intro query hquery
  rw [hcount]
  rw [← Except.ok.inj h] at hquery ⊢
  obtain ⟨feature, hfeature, hmade⟩ := forall₂_mem (mapM_eq_ok.mp hqueries).flip hquery
  exact (hmodel.parts.2 feature hfeature).bind hmade

end FeatureRank
