/-!
# Steps that may fail

What a step that may fail gives when another follows it, when its error is put in
other words, and when it is done for every member of a list.
-/
namespace Rebuild

variable {ε δ α β : Type}

theorem ok_of_mapError {f : ε → δ} {result : Except ε α} {a : α}
    (h : result.mapError f = .ok a) : result = .ok a := by
  cases result with
  | ok b => cases h; rfl
  | error e => cases h

theorem mapError_ok (f : ε → δ) {result : Except ε α} {a : α} (h : result = .ok a) :
    result.mapError f = .ok a := by
  rw [h]
  rfl

theorem bind_ok {result : Except ε α} {a : α} (h : result = .ok a) {f : α → Except ε β} :
    result >>= f = f a := by
  rw [h]
  rfl

theorem ok_of_bind {result : Except ε α} {f : α → Except ε β} {b : β}
    (h : result >>= f = .ok b) : ∃ a, result = .ok a ∧ f a = .ok b := by
  cases result with
  | ok a => exact ⟨a, rfl, h⟩
  | error e => cases h

theorem ok_of_map {result : Except ε α} {f : α → β} {b : β} (h : f <$> result = .ok b) :
    ∃ a, result = .ok a ∧ f a = b := by
  cases result with
  | ok a => exact ⟨a, rfl, Except.ok.inj h⟩
  | error e => cases h

theorem exists_ok_map_iff {result : Except ε α} {f : α → β} :
    (∃ b, f <$> result = .ok b) ↔ ∃ a, result = .ok a := by
  cases result with
  | ok a => exact ⟨fun _ => ⟨a, rfl⟩, fun _ => ⟨f a, rfl⟩⟩
  | error e => exact ⟨nofun, nofun⟩

/-! ## Errors -/

theorem exists_error_iff {result : Except ε α} :
    (∃ e, result = .error e) ↔ ¬∃ a, result = .ok a := by
  cases result with
  | ok a => simp
  | error e => simp

/-- The error of a step that failed. -/
def errorOf : Except ε α → Option ε
  | .ok _ => none
  | .error e => some e

theorem errorOf_eq_none_iff {result : Except ε α} :
    errorOf result = none ↔ ∃ a, result = .ok a := by
  cases result <;> simp [errorOf]

theorem errorOf_eq_some_iff {result : Except ε α} {e : ε} :
    errorOf result = some e ↔ result = .error e := by
  cases result <;> simp [errorOf]

theorem errorOf_map (f : α → β) (result : Except ε α) :
    errorOf (f <$> result) = errorOf result := by
  cases result <;> rfl

theorem errorOf_mapError (f : ε → δ) (result : Except ε α) :
    errorOf (result.mapError f) = (errorOf result).map f := by
  cases result <;> rfl

/-! ## Lists of steps -/

theorem mem_of_mapM_ok {f : α → Except ε β} {l : List α} {results : List β}
    (h : l.mapM f = .ok results) (b : β) : b ∈ results ↔ ∃ a ∈ l, f a = .ok b := by
  induction l generalizing results with
  | nil =>
    cases h
    simp
  | cons a l ih =>
    rw [List.mapM_cons] at h
    obtain ⟨b', ha, h⟩ := ok_of_bind h
    obtain ⟨others, hl, h⟩ := ok_of_bind h
    cases h
    rw [List.mem_cons, ih hl]
    simp only [List.mem_cons, exists_eq_or_imp, ha, Except.ok.injEq]
    exact or_congr_left eq_comm

theorem exists_ok_of_mapM {f : α → Except ε β} {l : List α} {results : List β}
    (h : l.mapM f = .ok results) {a : α} (ha : a ∈ l) : ∃ b, f a = .ok b := by
  induction l generalizing results with
  | nil => cases ha
  | cons a' l ih =>
    rw [List.mapM_cons] at h
    obtain ⟨b, hb, h⟩ := ok_of_bind h
    obtain ⟨others, hl, -⟩ := ok_of_bind h
    rcases List.mem_cons.1 ha with rfl | ha
    · exact ⟨b, hb⟩
    · exact ih hl ha

/-- Calls that can only give certain results give these, in order. -/
theorem eq_map_of_mapM_ok {f : α → Except ε β} {g : α → β} : ∀ {l : List α} {results : List β},
    l.mapM f = .ok results → (∀ a ∈ l, ∀ b, f a = .ok b → b = g a) → results = l.map g
  | [], results, h, _ => by
    cases h
    rfl
  | a :: l, results, h, hall => by
    rw [List.mapM_cons] at h
    obtain ⟨b, hb, h⟩ := ok_of_bind h
    obtain ⟨others, hl, h⟩ := ok_of_bind h
    cases h
    obtain ⟨hfirst, hrest⟩ := List.forall_mem_cons.1 hall
    rw [List.map_cons, hfirst b hb, eq_map_of_mapM_ok hl hrest]

theorem exists_mapM_ok {f : α → Except ε β} : ∀ {l : List α},
    (∀ a ∈ l, ∃ b, f a = .ok b) → ∃ results, l.mapM f = .ok results
  | [], _ => ⟨[], rfl⟩
  | a :: l, h => by
    obtain ⟨⟨b, hb⟩, hrest⟩ := List.forall_mem_cons.1 h
    obtain ⟨results, hresults⟩ := exists_mapM_ok hrest
    refine ⟨b :: results, ?_⟩
    rw [List.mapM_cons, bind_ok hb, bind_ok hresults]
    rfl

theorem exists_mapM_ok_iff {f : α → Except ε β} {l : List α} :
    (∃ results, l.mapM f = .ok results) ↔ ∀ a ∈ l, ∃ b, f a = .ok b :=
  ⟨fun ⟨_, h⟩ _ ha => exists_ok_of_mapM h ha, exists_mapM_ok⟩

theorem toOption_eq_some_iff {result : Except ε α} {a : α} :
    result.toOption = some a ↔ result = .ok a := by
  cases result <;> constructor <;> intro h <;> cases h <;> rfl

/-- Errors may be dropped call by call or at the end. -/
theorem mapM_toOption {f : α → Except ε β} : ∀ l : List α,
    l.mapM (fun a => (f a).toOption) = (l.mapM f).toOption
  | [] => rfl
  | a :: l => by
    rw [List.mapM_cons, List.mapM_cons, mapM_toOption l]
    cases f a with
    | error e => rfl
    | ok b => cases l.mapM f <;> rfl

end Rebuild
