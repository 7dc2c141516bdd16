import Calculator.Proofs.ParseExact

/-!
# What a reader takes

The situation behind a list of tokens depends on their kinds alone. A reader takes the tokens of a
list as long as each of them may come next, and with a limit beyond the number of tokens nothing
else stops him. He takes what the grammar derives to its end.
-/

namespace Calculator.Situation

/-- The situation behind a list of tokens. -/
def after (σ : Situation) (ts : List Token) : Situation :=
  (ts.map (·.kind)).foldl read σ

@[simp]
theorem after_nil (σ : Situation) : σ.after [] = σ := rfl

@[simp]
theorem after_cons (σ : Situation) (t : Token) (ts : List Token) :
    σ.after (t :: ts) = (σ.read t.kind).after ts := rfl

theorem after_append (σ : Situation) (ts us : List Token) :
    σ.after (ts ++ us) = (σ.after ts).after us := by
  rw [after, List.map_append, List.foldl_append]
  rfl

/-- Each token of a list may come next when the ones before it are taken. -/
def Passes : Situation → List Token → Prop
  | _, [] => True
  | σ, t :: ts => σ.fault? t = none ∧ Passes (σ.read t.kind) ts

theorem passes_append {σ : Situation} {ts us : List Token} :
    σ.Passes (ts ++ us) ↔ σ.Passes ts ∧ (σ.after ts).Passes us := by
  induction ts generalizing σ with
  | nil => simp [Passes]
  | cons t ts ih => rw [List.cons_append, Passes, Passes, ih, and_assoc, after_cons]

/-- A token opens one level at most. -/
theorem level_read_le (σ : Situation) (k : TokenKind) : (σ.read k).level ≤ σ.level + 1 := by
  obtain ⟨due, inner, outer⟩ := σ
  cases due <;> cases k <;>
    simp only [read, Bool.false_eq_true, if_false, if_true, readDue, readComplete, completed, level,
      Group.levels, List.map_cons, List.sum_cons] <;> try omega
  · cases outer with
    | nil => simp
    | cons g outer =>
      simp only [List.map_cons, List.sum_cons, Group.levels]
      omega

/-- A list of tokens opens no more levels than it has tokens. -/
theorem level_after_le (σ : Situation) (ts : List Token) :
    (σ.after ts).level ≤ σ.level + ts.length := by
  induction ts generalizing σ with
  | nil => exact Nat.le_refl _
  | cons t ts ih =>
    have hread := level_read_le σ t.kind
    have hafter := ih (σ.read t.kind)
    rw [after_cons, List.length_cons]
    omega

variable {σ : Situation} {limit : Nat} {stop : Token} {ts us : List Token}

/-- A reader takes all tokens of a list in which nothing is wrong. -/
theorem failure?_eq_none (h : σ.Passes ts) (hstop : (σ.after ts).fault? stop = none)
    (hlimit : σ.level + ts.length ≤ limit) : σ.failure? limit stop ts = none := by
  induction ts generalizing σ with
  | nil =>
    rw [after_nil] at hstop
    have hlevel : σ.level ≤ limit := Nat.le_trans (Nat.le_add_right _ _) hlimit
    rw [failure?, if_neg (Nat.not_lt.mpr hlevel), hstop, Option.map_none]
  | cons t ts ih =>
    have hread := level_read_le σ t.kind
    rw [List.length_cons] at hlimit
    rw [failure?_of_none (by omega) h.1]
    exact ih h.2 hstop (by omega)

/-- Where nothing stops a reader, nothing is wrong with the tokens and with the end token. -/
theorem passes_of_failure?_eq_none (h : σ.failure? limit stop ts = none) :
    σ.Passes ts ∧ (σ.after ts).fault? stop = none := by
  induction ts generalizing σ with
  | nil =>
    rw [failure?] at h
    split at h
    · cases h
    · exact ⟨trivial, by simpa using h⟩
  | cons t ts ih =>
    rw [failure?] at h
    split at h
    · cases h
    · cases hfault : σ.fault? t with
      | some f =>
        rw [hfault] at h
        cases h
      | none =>
        rw [hfault] at h
        exact ⟨⟨hfault, (ih h).1⟩, (ih h).2⟩

/-- With a limit beyond the number of tokens a reader is stopped by the first token that may not
come next, which may be the end token. -/
theorem exists_fault_of_failure? {err : StructuralError} (hlimit : σ.level + ts.length ≤ limit)
    (h : σ.failure? limit stop ts = some (err, us)) :
    ∃ before behind f, ts = before ++ behind ∧ σ.Passes before ∧
      (σ.after before).fault? (behind.headD stop) = some f ∧
      err = f.errorAt (behind.headD stop) := by
  induction ts generalizing σ with
  | nil =>
    rw [failure?, if_neg (Nat.not_lt.mpr (Nat.le_trans (Nat.le_add_right _ _) hlimit))] at h
    obtain ⟨f, hf, hpair⟩ := Option.map_eq_some_iff.mp h
    exact ⟨[], [], f, rfl, trivial, hf, (congrArg Prod.fst hpair).symm⟩
  | cons t ts ih =>
    rw [List.length_cons] at hlimit
    cases hfault : σ.fault? t with
    | some f =>
      rw [failure?_of_some (by omega) hfault] at h
      cases h
      exact ⟨[], t :: ts, f, rfl, trivial, hfault, rfl⟩
    | none =>
      have hread := level_read_le σ t.kind
      rw [failure?_of_none (by omega) hfault] at h
      obtain ⟨before, behind, f, rfl, hpasses, hf, herr⟩ := ih (by omega) h
      exact ⟨t :: before, behind, f, rfl, ⟨hfault, hpasses⟩, hf, herr⟩

/-- The tokens that the grammar derives may all come next, and then the end. -/
theorem passes_of_derives {ts : List Token} {e : Expr} {n : Nat} (h : Derives .sum ts e n)
    (stop : Token) (hstop : stop.kind = .endOfInput) : start.Passes (ts ++ [stop]) := by
  have hrun := Parse.whole_of_derives h hstop (Nat.le_refl (n + 1))
  rcases Parse.whole_outcome (n + 1) stop hstop h.kind_ne_endOfInput with
    ⟨_, _, -, -, -, hreader⟩ | ⟨err, us, herr, -⟩
  · obtain ⟨hpasses, hend⟩ := passes_of_failure?_eq_none hreader
    exact passes_append.mpr ⟨hpasses, hend, trivial⟩
  · rw [hrun] at herr
    cases herr

end Calculator.Situation
