import Calculator.Proofs.ErrorPlaces
import Calculator.Proofs.FiniteValues
import Calculator.Proofs.Rereading

/-!
# Records that are read again

A record that is written as JSON is an object with the names of its fields, and reading it gives
back every field as it was, except for the numbers that are rounded again.
-/

namespace Calculator

open Json

/-! ## Fields -/

namespace Json

/-- Of fields with different names at most one has a given name. -/
theorem filter_name_eq {fields : List WrittenField}
    (hnodup : (fields.map WrittenField.name).Nodup) (name : String) :
    (fields.map fun f => (f.name, f.value)).filter (·.1 == name) =
      ((fields.find? (·.name == name)).map fun f => (f.name, f.value)).toList := by
  induction fields with
  | nil => rfl
  | cons f fields ih =>
    rw [List.map_cons, List.nodup_cons] at hnodup
    rw [List.map_cons]
    by_cases hname : f.name = name
    · have hrest : (fields.map fun f => (f.name, f.value)).filter (·.1 == name) = [] := by
        rw [List.filter_eq_nil_iff]
        intro pair hpair heq
        obtain ⟨g, hg, rfl⟩ := List.mem_map.mp hpair
        have hsame : g.name = f.name := (beq_iff_eq.mp heq).trans hname.symm
        exact hnodup.1 (hsame ▸ List.mem_map_of_mem hg)
      rw [List.filter_cons_of_pos (by simpa using hname), hrest,
        List.find?_cons_of_pos (by simpa using hname)]
      rfl
    · rw [List.filter_cons_of_neg (by simpa using hname), ih hnodup.2,
        List.find?_cons_of_neg (by simpa using hname)]

/-- A function that gives something for every element of a list gives a list of it. -/
theorem mapM_map_eq_some {f : β → Option γ} {g : α → β} {h : α → γ}
    (hsome : ∀ x, f (g x) = some (h x)) (xs : List α) : (xs.map g).mapM f = some (xs.map h) := by
  induction xs with
  | nil => rfl
  | cons x xs ih =>
    rw [List.map_cons, List.mapM_cons, hsome, ih]
    rfl

/-- The fields of a record are found in an object of fields with different names. -/
theorem fields?_object {fields : List WrittenField}
    (hnodup : (fields.map WrittenField.name).Nodup) (names : List String) :
    (object (fields.map WrittenField.member)).fields? names =
      some (names.map fun name => (fields.find? (·.name == name)).map WrittenField.value) := by
  rw [fields?, mapM_map_eq_some (h := fun f => (f.name, f.value)) (by simp [WrittenField.member])]
  simp only [Option.bind_eq_bind, Option.bind_some]
  induction names with
  | nil => rfl
  | cons name names ih =>
    rw [List.mapM_cons, ih, filter_name_eq hnodup, List.map_cons]
    cases fields.find? (·.name == name) <;> rfl

/-- A text is read as the value `a`, by a reader that refuses null. -/
structure ReadsBack (read : Json → Option α) (text : String) (a : α) : Prop where
  exists_readsAs : ∃ j, ReadsAs text.toList j ∧ read j = some a
  null_eq : read null = none

namespace ReadsBack

variable {read : Json → Option α} {text : String} {a : α}

/-- The value of a text. -/
theorem read?_bind_eq (h : ReadsBack read text a) : (read? text).bind read = some a := by
  obtain ⟨j, hj, hread⟩ := h.exists_readsAs
  rw [hj.read?_eq, Option.bind_some, hread]

end ReadsBack

end Json

/-! ## Values of fields -/

/-- A natural number is read back. -/
theorem readsBack_natural {n : Nat} (hn : n < 2 ^ 64) : ReadsBack natural? (Nat.repr n) n := by
  refine ⟨⟨_, readsAs_repr n, ?_⟩, rfl⟩
  have hvalue : digitsValue (naturalNumber n).whole < 2 ^ 64 := by
    rwa [naturalNumber, digitsValue_decimalDigits]
  change (if digitsValue (naturalNumber n).whole < 2 ^ 64 then _ else _) = _
  rw [if_pos hvalue, naturalNumber, digitsValue_decimalDigits]

/-- A truth value is read back. -/
theorem readsBack_bool (b : Bool) : ReadsBack bool? (if b then "true" else "false") b :=
  ⟨⟨_, readsAs_bool b, rfl⟩, rfl⟩

/-- A text is read back. -/
theorem readsBack_text (s : String) : ReadsBack text? (quoted s) s :=
  ⟨⟨_, readsAs_quoted s, textOf?_partsOf s⟩, rfl⟩

/-- A character is read back. -/
theorem readsBack_char (c : Char) : ReadsBack char? (quoted c.toString) c := by
  refine ⟨⟨_, readsAs_quoted _, ?_⟩, rfl⟩
  have hchars : c.toString.toList = [c] := by simp [Char.toString]
  simp only [char?, partsOf, textChars?_map_partOf, hchars]

/-- A finite number is read back as a number that may have been rounded again. -/
theorem readsBack_number {x : Binary64} (hx : x.isFinite = true) :
    ReadsBack number? (numberJson x) x.reread := by
  obtain ⟨n, hreads, hvalue, -⟩ := Binary64.exists_readsAs_numberJson hx
  exact ⟨⟨_, hreads, hvalue⟩, rfl⟩

/-- A stage is read back. -/
theorem readsBack_stage (s : Stage) : ReadsBack Stage.ofJson? s.toJson s := by
  refine ⟨⟨_, readsAs_quoted _, ?_⟩, rfl⟩
  rw [Stage.ofJson?, textOf?_partsOf, Option.bind_some]
  cases s <;> rfl

/-- A code is read back. -/
theorem readsBack_code (c : ErrorCode) : ReadsBack ErrorCode.ofJson? c.toJson c := by
  have hlt := c.number.toNat_lt
  obtain ⟨j, hj, hread⟩ := (readsBack_natural (hlt.trans (by decide))).exists_readsAs
  refine ⟨⟨j, hj, ?_⟩, rfl⟩
  simp [ErrorCode.ofJson?, hread, hlt]

/-! ## Records -/

/-- The offsets of a span have 64 bits. -/
def Span.Fits (s : Span) : Prop :=
  s.start < 2 ^ 64 ∧ s.stop < 2 ^ 64

/-- A span is read back. -/
theorem Span.readsBack {s : Span} (h : s.Fits) : ReadsBack Span.ofJson? s.toJson s := by
  obtain ⟨start, hstart, hreadStart⟩ := (readsBack_natural h.1).exists_readsAs
  obtain ⟨stop, hstop, hreadStop⟩ := (readsBack_natural h.2).exists_readsAs
  refine ⟨⟨_, readsAs_objectJson ⟨"start", _, start, hstart⟩ [⟨"end", _, stop, hstop⟩], ?_⟩, rfl⟩
  rw [Span.ofJson?, fields?_object (by simp)]
  simp [required, hreadStart, hreadStop]

/-- An error in the words of an expression is read back. -/
theorem LexicalError.readsBack {e : LexicalError} (h : e.position < 2 ^ 64) :
    ReadsBack LexicalError.ofJson? e.toJson e := by
  obtain ⟨character, hcharacter, hreadCharacter⟩ := (readsBack_char e.character).exists_readsAs
  obtain ⟨position, hposition, hreadPosition⟩ := (readsBack_natural h).exists_readsAs
  refine ⟨⟨_, readsAs_objectJson ⟨"character", _, character, hcharacter⟩
    [⟨"position", _, position, hposition⟩], ?_⟩, rfl⟩
  rw [LexicalError.ofJson?, fields?_object (by simp)]
  simp [required, hreadCharacter, hreadPosition]

/-- An error in the structure of an expression is read back. -/
theorem StructuralError.readsBack {e : StructuralError} (h : e.position < 2 ^ 64) :
    ReadsBack StructuralError.ofJson? e.toJson e := by
  obtain ⟨code, hcode, hreadCode⟩ := (readsBack_code e.code).exists_readsAs
  obtain ⟨message, hmessage, hreadMessage⟩ := (readsBack_text e.reason).exists_readsAs
  obtain ⟨found, hfound, hreadFound⟩ := (readsBack_text e.found).exists_readsAs
  obtain ⟨position, hposition, hreadPosition⟩ := (readsBack_natural h).exists_readsAs
  refine ⟨⟨_, readsAs_objectJson ⟨"code", _, code, hcode⟩ [⟨"message", _, message, hmessage⟩,
    ⟨"found", _, found, hfound⟩, ⟨"position", _, position, hposition⟩], ?_⟩, rfl⟩
  rw [StructuralError.ofJson?, fields?_object (by simp)]
  simp [required, hreadCode, hreadMessage, hreadFound, hreadPosition]

/-- A report is read back. -/
theorem Report.readsBack {r : Report} (h : r.position < 2 ^ 64) :
    ReadsBack Report.ofJson? r.toJson r := by
  obtain ⟨stage, hstage, hreadStage⟩ := (readsBack_stage r.stage).exists_readsAs
  obtain ⟨code, hcode, hreadCode⟩ := (readsBack_code r.code).exists_readsAs
  obtain ⟨message, hmessage, hreadMessage⟩ := (readsBack_text r.message).exists_readsAs
  obtain ⟨position, hposition, hreadPosition⟩ := (readsBack_natural h).exists_readsAs
  refine ⟨⟨_, readsAs_objectJson ⟨"stage", _, stage, hstage⟩ [⟨"code", _, code, hcode⟩,
    ⟨"message", _, message, hmessage⟩, ⟨"position", _, position, hposition⟩], ?_⟩, rfl⟩
  rw [Report.ofJson?, fields?_object (by simp)]
  simp [required, hreadStage, hreadCode, hreadMessage, hreadPosition]

/-! ## Errors in the value -/

/-- A natural number is read with itself as its significand. -/
theorem JsonNumber.parts_of_natural? {n : JsonNumber} {k : Nat} (h : n.natural? = some k) :
    n.parts = (k, 0) ∧ k < 2 ^ 64 := by
  rw [natural?] at h
  split at h
  · cases h
  · next hplain =>
    simp only [Bool.or_eq_true, not_or, Bool.not_eq_true, Option.isSome_eq_false_iff,
      Option.isNone_iff_eq_none] at hplain
    obtain ⟨⟨-, hfraction⟩, hexponent⟩ := hplain
    dsimp only at h
    split at h
    · next hlt =>
      cases h
      have hwhole : 0 * 10 ^ n.whole.length + digitsValue n.whole < 2 ^ 64 := by simpa using hlt
      have hdigits := appendDigits_eq hwhole
      refine ⟨?_, hlt⟩
      simp [parts, hfraction, hexponent, hdigits, appendDigits]
    · cases h

/-- A natural number below `2 ^ 64` is a number. -/
theorem exists_ofNat_eq_finite {k : Nat} (hk : k < 2 ^ 64) :
    ∃ f, Binary64.ofNat k = .finite false f := by
  obtain ⟨places, hplaces, hone⟩ := Binary64.exists_unitsPerOne_eq
  have hle : k * unitsPerOne ≤ 1 * Magnitude.units ⟨2 ^ 52, places + 12, by decide, by omega,
      .inr (Nat.le_refl _)⟩ := by
    rw [Magnitude.units, hone, Nat.one_mul, Nat.pow_add]
    calc k * 2 ^ places ≤ 2 ^ 52 * 2 ^ 12 * 2 ^ places := Nat.mul_le_mul_right _ hk.le
      _ = 2 ^ 52 * (2 ^ places * 2 ^ 12) := by ring
  obtain ⟨f, hf⟩ := Magnitude.exists_nearest? Nat.one_pos hle
  exact ⟨f, Magnitude.round_of_nearest? false hf⟩

/-- A natural number below `2 ^ 64` is in range. -/
theorem JsonNumber.isSome_value?_of_natural? {n : JsonNumber} {k : Nat}
    (h : n.natural? = some k) : n.value?.isSome = true := by
  obtain ⟨hparts, hk⟩ := parts_of_natural? h
  obtain ⟨f, hf⟩ := exists_ofNat_eq_finite hk
  obtain ⟨t, ht, hunits⟩ := Binary64.exists_ofNat_ten_pow_eq (Nat.zero_le 22)
  -- it is multiplied by one
  have hnearest : Magnitude.nearest? (f.units * t.units) unitsPerOne = some f := by
    rw [hunits, Nat.pow_zero, ← Magnitude.nearest?_units f,
      ← Magnitude.nearest?_mul_right f.units 1 Binary64.unitsPerOne_pos]
    simp only [Nat.one_mul]
  have hsize : readSize? k 0 = scaleUp? (.ofNat k) 0 := rfl
  rw [value?_eq, hparts, hsize, hf, scaleUp?_eq (Nat.zero_le _) ht, hnearest]
  rfl

namespace Json

/-- A natural number is sound. -/
theorem isSound_of_natural? {j : Json} {n levels : Nat} (h : j.natural? = some n) :
    j.isSound levels = true := by
  cases j with
  | number k => exact JsonNumber.isSome_value?_of_natural? h
  | _ => cases h

/-- A number in range is sound. -/
theorem isSound_of_number? {j : Json} {x : Binary64} {levels : Nat} (h : j.number? = some x) :
    j.isSound levels = true := by
  cases j with
  | number n => exact Option.isSome_of_eq_some h
  | _ => cases h

/-- A text is sound. -/
theorem isSound_of_text? {j : Json} {s : String} {levels : Nat} (h : j.text? = some s) :
    j.isSound levels = true := by
  cases j with
  | text parts =>
    obtain ⟨cs, hcs, -⟩ := Option.map_eq_some_iff.mp h
    exact Option.isSome_of_eq_some hcs
  | _ => cases h

/-- Written fields are sound if their values are. -/
theorem membersAreSound_map_member {levels : Nat} {fields : List WrittenField}
    (h : ∀ f ∈ fields, f.value.isSound levels = true) :
    membersAreSound levels (fields.map WrittenField.member) = true := by
  induction fields with
  | nil => rfl
  | cons f fields ih =>
    rw [List.forall_mem_cons] at h
    have hname : (textChars? (partsOf f.name)).isSome = true := by
      rw [partsOf, textChars?_map_partOf]
      rfl
    rw [List.map_cons, WrittenField.member, membersAreSound, hname, h.1, ih h.2]
    rfl

end Json

namespace EvaluationError

/-- The field of the kind of an error. -/
def kindField (kind : String) : WrittenField :=
  ⟨"kind", _, _, readsAs_quoted kind⟩

/-- An error is read by its kind from its other fields. -/
theorem ofJson?_object {kind : String} {fields : List WrittenField}
    (hname : ∀ f ∈ fields, f.name ≠ "kind")
    (hsound : ∀ f ∈ fields, f.value.isSound (maxLevels - 1) = true) :
    ofJson? (.object ((kindField kind :: fields).map WrittenField.member)) =
      ofFields? kind (.object (fields.map WrittenField.member)) := by
  have hall : Json.isSound maxLevels
      (.object ((kindField kind :: fields).map WrittenField.member)) = true := by
    refine membersAreSound_map_member (List.forall_mem_cons.mpr ⟨?_, hsound⟩)
    exact isSound_of_text? (textOf?_partsOf kind)
  have hkind : kindAndFields? (.object ((kindField kind :: fields).map WrittenField.member)) =
      some (kind, .object (fields.map WrittenField.member)) := by
    have hother : ∀ member ∈ fields.map WrittenField.member,
        (textOf? member.1 == some "kind") = false := by
      intro member hmember
      obtain ⟨f, hf, rfl⟩ := List.mem_map.mp hmember
      simpa [WrittenField.member] using hname f hf
    have hfilter : (fields.map WrittenField.member).filter
        (fun member => textOf? member.1 == some "kind") = [] :=
      List.filter_eq_nil_iff.mpr fun member hmember => by simp [hother member hmember]
    have hrest : (fields.map WrittenField.member).filter
        (fun member => !(textOf? member.1 == some "kind")) = fields.map WrittenField.member :=
      List.filter_eq_self.mpr fun member hmember => by simp [hother member hmember]
    simp only [kindAndFields?, List.map_cons, List.filter_cons, hfilter, hrest]
    simp [kindField, WrittenField.member, text?]
  rw [ofJson?, if_pos hall, hkind]
  rfl

/-- The positions and the limit of an error have 64 bits, and the operands that it names are
finite. -/
def Fits (e : EvaluationError) : Prop :=
  e.position < 2 ^ 64 ∧ match e with
    | domain base exponent _ => base.isFinite = true ∧ exponent.isFinite = true
    | depthExceeded limit _ => limit < 2 ^ 64
    | _ => True

/-- An error whose operands have been read again. -/
def reread : EvaluationError → EvaluationError
  | domain base exponent p => domain base.reread exponent.reread p
  | e => e

/-- An error is read back if its kind and its other fields are. -/
theorem readsBack_of_fields {e e' : EvaluationError} (fields : List WrittenField)
    (htext : e.toJson = objectJson ((kindField e.kind :: fields).map fun f => (f.name, f.text)))
    (hname : ∀ f ∈ fields, f.name ≠ "kind")
    (hsound : ∀ f ∈ fields, f.value.isSound (maxLevels - 1) = true)
    (hread : ofFields? e.kind (.object (fields.map WrittenField.member)) = some e') :
    ReadsBack ofJson? e.toJson e' := by
  refine ⟨⟨_, htext ▸ readsAs_objectJson (kindField e.kind) fields, ?_⟩, rfl⟩
  rw [ofJson?_object hname hsound, hread]

/-- An error in the value of an expression is read back, with the operands as they are read. -/
theorem readsBack {e : EvaluationError} (h : e.Fits) : ReadsBack ofJson? e.toJson e.reread := by
  obtain ⟨hfits, hdetails⟩ := h
  obtain ⟨position, hposition, hread⟩ := (readsBack_natural hfits).exists_readsAs
  have hsound : position.isSound (maxLevels - 1) = true := isSound_of_natural? hread
  cases e with
  | divisionByZero p | moduloByZero p | zeroToNegativePower p =>
    refine readsBack_of_fields [⟨"position", _, position, hposition⟩] rfl (by simp)
      (by simpa using hsound) ?_
    rw [kind, ofFields?, fields?_object (by simp)]
    simp [required, hread, reread, EvaluationError.position]
  | domain a b p =>
    obtain ⟨base, hbase, hreadBase⟩ := (readsBack_number hdetails.1).exists_readsAs
    obtain ⟨exponent, hexponent, hreadExponent⟩ := (readsBack_number hdetails.2).exists_readsAs
    refine readsBack_of_fields [⟨"base", _, base, hbase⟩, ⟨"exponent", _, exponent, hexponent⟩,
      ⟨"position", _, position, hposition⟩] rfl (by simp)
      (by simp [hsound, isSound_of_number? hreadBase, isSound_of_number? hreadExponent]) ?_
    rw [kind, ofFields?, fields?_object (by simp)]
    simp [required, hread, hreadBase, hreadExponent, reread, EvaluationError.position]
  | overflow s p =>
    obtain ⟨context, hcontext, hreadContext⟩ := (readsBack_text s).exists_readsAs
    refine readsBack_of_fields [⟨"context", _, context, hcontext⟩,
      ⟨"position", _, position, hposition⟩] rfl (by simp)
      (by simp [hsound, isSound_of_text? hreadContext]) ?_
    rw [kind, ofFields?, fields?_object (by simp)]
    simp [required, hread, hreadContext, reread, EvaluationError.position]
  | depthExceeded n p =>
    obtain ⟨limit, hlimit, hreadLimit⟩ := (readsBack_natural hdetails).exists_readsAs
    refine readsBack_of_fields [⟨"limit", _, limit, hlimit⟩,
      ⟨"position", _, position, hposition⟩] rfl (by simp)
      (by simp [hsound, isSound_of_natural? hreadLimit]) ?_
    rw [kind, ofFields?, fields?_object (by simp)]
    simp [required, hread, hreadLimit, reread, EvaluationError.position]

end EvaluationError

/-! ## Outcomes -/

/-- A field that may be absent, as it is written and read. -/
structure OptionalField (name : String) (text : Option String) (f? : Option WrittenField) :
    Prop where
  written_eq : optionalField name text = f?.toList.map fun f => (f.name, f.text)
  name_eq : ∀ f ∈ f?, f.name = name

namespace OptionalField

variable {name : String} {text : Option String} {f? : Option WrittenField}

/-- A field that may be absent has its own name or none. -/
theorem names_sublist (h : OptionalField name text f?) :
    (f?.toList.map WrittenField.name).Sublist [name] := by
  cases f? with
  | none => exact List.nil_sublist _
  | some f =>
    rw [← h.name_eq f rfl]
    exact List.Sublist.refl _

/-- A field that may be absent is found under its name. -/
theorem find?_eq (h : OptionalField name text f?) (key : String) :
    f?.toList.find? (·.name == key) = if name = key then f? else none := by
  cases f? with
  | none => simp
  | some f => simp [h.name_eq f rfl]

/-- What may be absent is read back, or is absent. -/
theorem exists_of_readsBack {read : Json → Option β} {v : Option α} {toText : α → String}
    {back : α → β} (h : ∀ a ∈ v, ReadsBack read (toText a) (back a)) (name : String) :
    ∃ f?, OptionalField name (v.map toText) f? ∧
      optional read (f?.map WrittenField.value) = some (v.map back) := by
  cases v with
  | none => exact ⟨none, ⟨rfl, nofun⟩, rfl⟩
  | some a =>
    obtain ⟨⟨j, hj, hread⟩, hnull⟩ := h a rfl
    refine ⟨some ⟨name, _, j, hj⟩, ⟨rfl, fun f hf => Option.some.inj hf ▸ rfl⟩, ?_⟩
    rw [Option.map_some, Json.optional, hread]
    · rfl
    · rintro rfl
      rw [hnull] at hread
      cases hread

end OptionalField

/-- The value of a text is finite, for it is the value of an expression. -/
theorem isFinite_of_answer {limits : Limits} {text : String} {x : Binary64}
    (h : answer limits text = .ok x) : x.isFinite = true := by
  obtain ⟨tokens, tree, -, -, hevaluate⟩ := exists_evaluate_of_answer h
  have hfinite := tree.namesFinite_valueWithin limits.evaluation limits.evaluation
  rwa [← evaluate_eq, hevaluate] at hfinite

namespace Outcome

/-- The value of an outcome is finite, and the position of its error has 64 bits. -/
def Fits (o : Outcome) : Prop :=
  (∀ x ∈ o.value, x.isFinite = true) ∧ ∀ r ∈ o.error, r.position < 2 ^ 64

/-- An outcome whose value has been read again. -/
def reread (o : Outcome) : Outcome :=
  { o with value := o.value.map Binary64.reread }

/-- An outcome is read back, with the value as it is read. -/
theorem readsBack {o : Outcome} (h : o.Fits) : ReadsBack Outcome.ofJson? o.toJson o.reread := by
  obtain ⟨success, hsuccess, hreadSuccess⟩ := (readsBack_bool o.success).exists_readsAs
  obtain ⟨value, hvalue, hreadValue⟩ :=
    OptionalField.exists_of_readsBack (fun x hx => readsBack_number (h.1 x hx)) "value"
  obtain ⟨display, hdisplay, hreadDisplay⟩ :=
    OptionalField.exists_of_readsBack (v := o.display) (fun s _ => readsBack_text s) "display"
  obtain ⟨error, herror, hreadError⟩ :=
    OptionalField.exists_of_readsBack (fun r hr => Report.readsBack (h.2 r hr)) "error"
  obtain ⟨first, hname, hfirst, hfirstValue⟩ : ∃ f : WrittenField, f.name = "success" ∧
      f.text = (if o.success then "true" else "false") ∧ f.value = success :=
    ⟨⟨_, _, _, hsuccess⟩, rfl, rfl, rfl⟩
  have hreads := readsAs_objectJson first (value.toList ++ display.toList ++ error.toList)
  have hnodup : ((first :: (value.toList ++ display.toList ++ error.toList)).map
      WrittenField.name).Nodup := by
    rw [List.map_cons, List.map_append, List.map_append, hname]
    exact List.Nodup.sublist (((hvalue.names_sublist.append hdisplay.names_sublist).append
      herror.names_sublist).cons_cons "success") (by decide)
  have htext : o.toJson = objectJson ((first ::
      (value.toList ++ display.toList ++ error.toList)).map fun f => (f.name, f.text)) := by
    rw [toJson, hvalue.written_eq, hdisplay.written_eq, herror.written_eq, List.map_cons,
      List.map_append, List.map_append, hname, hfirst]
    rfl
  refine ⟨⟨_, htext ▸ hreads, ?_⟩, rfl⟩
  rw [ofJson?, fields?_object hnodup]
  simp [List.find?_cons, List.find?_append, hname, hfirstValue, hvalue.find?_eq, hdisplay.find?_eq,
    herror.find?_eq, required, hreadSuccess, hreadValue, hreadDisplay, hreadError, reread]

/-- The outcome of a text fits where the offsets in the text do. -/
theorem fits_ofAnswer (limits : Limits) {text : String} (htext : text.length < 2 ^ 64) :
    (ofAnswer (answer limits text)).Fits := by
  cases h : answer limits text with
  | error e =>
    obtain ⟨stage, -, -, hplace⟩ := exists_stage_of_answer h
    refine ⟨nofun, fun r hr => ?_⟩
    obtain rfl := Option.some.inj hr
    exact Nat.lt_of_le_of_lt hplace.position_le htext
  | ok x =>
    refine ⟨fun y hy => ?_, nofun⟩
    obtain rfl := Option.some.inj hy
    exact isFinite_of_answer h

end Outcome

/-- **Records come back as they were written, up to the rounding of their numbers.** Every record
whose offsets and limits have 64 bits and whose numbers are finite is read back from its own text,
and all that it says comes back, whichever of the fields of an outcome are absent. A number comes
back finite, with its sign and at most three words away, and it is the same number where neither its
significand nor its power of ten has to be rounded. The outcomes of texts are such records. -/
theorem records_read_back :
    (∀ s : Span, s.Fits → (read? s.toJson).bind Span.ofJson? = some s) ∧
    (∀ e : LexicalError, e.position < 2 ^ 64 →
      (read? e.toJson).bind LexicalError.ofJson? = some e) ∧
    (∀ e : StructuralError, e.position < 2 ^ 64 →
      (read? e.toJson).bind StructuralError.ofJson? = some e) ∧
    (∀ e : EvaluationError, e.Fits →
      (read? e.toJson).bind EvaluationError.ofJson? = some e.reread) ∧
    (∀ r : Report, r.position < 2 ^ 64 → (read? r.toJson).bind Report.ofJson? = some r) ∧
    (∀ o : Outcome, o.Fits → (read? o.toJson).bind Outcome.ofJson? = some o.reread) ∧
    (∀ (limits : Limits) (text : String), text.length < 2 ^ 64 →
      (Outcome.ofAnswer (answer limits text)).Fits) ∧
    ∀ x : Binary64, x.isFinite = true → Binary64.IsReread x x.reread := by
  refine ⟨?_, ?_, ?_, ?_, ?_, ?_, ?_, ?_⟩
  · exact fun s h => (Span.readsBack h).read?_bind_eq
  · exact fun e h => (LexicalError.readsBack h).read?_bind_eq
  · exact fun e h => (StructuralError.readsBack h).read?_bind_eq
  · exact fun e h => (EvaluationError.readsBack h).read?_bind_eq
  · exact fun r h => (Report.readsBack h).read?_bind_eq
  · exact fun o h => (Outcome.readsBack h).read?_bind_eq
  · exact fun limits text h => Outcome.fits_ofAnswer limits h
  · intro x hx
    obtain ⟨n, -, -, hreread⟩ := Binary64.exists_readsAs_numberJson hx
    exact hreread

/-- The significand of `9007199254740991.0` is read with the digit behind the point and does not fit
53 digits, so the value of its outcome comes back as the number below it. -/
theorem outcome_not_read_back :
    let o := Outcome.ofText "9007199254740991"
    o.toJson = "\x7b\"success\":true,\"value\":9007199254740991.0," ++
      "\"display\":\"9007199254740991.0\"\x7d" ∧
      (read? o.toJson).bind Outcome.ofJson? ≠ some o := by
  decide +kernel

end Calculator
