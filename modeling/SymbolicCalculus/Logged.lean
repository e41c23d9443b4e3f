/-
Module: SymbolicCalculus.Logged
Layer: Records
Purpose: Computations that may fail and that keep records. The records made before a failure stay.
  A computation is a plain pair of its records and its outcome, so two runs can be compared record
  by record; every operation has one equation for each half.
Trusted boundary: none
Main exports: Logged, Logged.note, Logged.fail, Logged.lift, Logged.mapError,
  Logged.outcome_bind_eq_ok_iff
-/
import SymbolicCalculus.Record

namespace SymbolicCalculus

/-- The records that a computation made, in order, and how it came out. -/
@[ext] structure Logged (ε α : Type) where
  records : List Record
  outcome : Except ε α

@[simp] theorem except_ok_bind {ε α β : Type} (a : α) (f : α → Except ε β) :
    (.ok a >>= f) = f a := rfl

@[simp] theorem except_error_bind {ε α β : Type} (e : ε) (f : α → Except ε β) :
    (.error e >>= f) = .error e := rfl

/-- Two steps come to a value exactly when the first does and then the second. -/
theorem except_bind_eq_ok_iff {ε α β : Type} {x : Except ε α} {f : α → Except ε β} {b : β} :
    (x >>= f) = .ok b ↔ ∃ a, x = .ok a ∧ f a = .ok b := by
  cases x <;> simp [bind, Except.bind]

/-- Two steps fail as the first does, or else as the second does after it. -/
theorem except_bind_eq_error_iff {ε α β : Type} {x : Except ε α} {f : α → Except ε β} {e : ε} :
    (x >>= f) = .error e ↔ x = .error e ∨ ∃ a, x = .ok a ∧ f a = .error e := by
  cases x <;> simp [bind, Except.bind]

/-- Changing the error leaves the values. -/
theorem except_mapError_eq_ok_iff {ε ε' α : Type} {f : ε → ε'} {x : Except ε α} {a : α} :
    x.mapError f = .ok a ↔ x = .ok a := by
  constructor
  · intro h
    cases x with
    | ok b => cases h; rfl
    | error e => cases h
  · rintro rfl
    rfl

namespace Logged

variable {ε ε' α β : Type}

/-- A finished computation without records. -/
protected def pure (a : α) : Logged ε α := ⟨[], .ok a⟩

/-- Goes on with the value, if there is one, and keeps the records of both parts. -/
protected def bind (x : Logged ε α) (f : α → Logged ε β) : Logged ε β :=
  match x.outcome with
  | .ok a => ⟨x.records ++ (f a).records, (f a).outcome⟩
  | .error e => ⟨x.records, .error e⟩

instance : Monad (Logged ε) where
  pure := Logged.pure
  bind := Logged.bind

/-- Makes one record. -/
def note (record : Record) : Logged ε Unit := ⟨[record], .ok ()⟩

/-- Fails without a record. -/
def fail (e : ε) : Logged ε α := ⟨[], .error e⟩

/-- A computation that keeps no records. -/
def lift (outcome : Except ε α) : Logged ε α := ⟨[], outcome⟩

/-- Changes the error and leaves records and values as they are. -/
def mapError (f : ε → ε') (x : Logged ε α) : Logged ε' α :=
  ⟨x.records, x.outcome.mapError f⟩

@[simp] theorem records_pure (a : α) : (pure a : Logged ε α).records = [] := rfl

@[simp] theorem outcome_pure (a : α) : (pure a : Logged ε α).outcome = .ok a := rfl

@[simp] theorem records_note (record : Record) : (note record : Logged ε Unit).records = [record] :=
  rfl

@[simp] theorem outcome_note (record : Record) : (note record : Logged ε Unit).outcome = .ok () :=
  rfl

@[simp] theorem records_fail (e : ε) : (fail e : Logged ε α).records = [] := rfl

@[simp] theorem outcome_fail (e : ε) : (fail e : Logged ε α).outcome = .error e := rfl

@[simp] theorem records_lift (outcome : Except ε α) : (lift outcome).records = [] := rfl

@[simp] theorem outcome_lift (outcome : Except ε α) : (lift outcome).outcome = outcome := rfl

@[simp] theorem records_mapError (f : ε → ε') (x : Logged ε α) :
    (x.mapError f).records = x.records := rfl

@[simp] theorem outcome_mapError (f : ε → ε') (x : Logged ε α) :
    (x.mapError f).outcome = x.outcome.mapError f := rfl

/-- A computation comes out as its first part says, and then as its second. -/
@[simp] theorem outcome_bind (x : Logged ε α) (f : α → Logged ε β) :
    (x >>= f).outcome = x.outcome >>= fun a => (f a).outcome := by
  rcases x with ⟨r, e | a⟩ <;> rfl

/-- A computation comes to a value exactly when both its parts do. -/
theorem outcome_bind_eq_ok_iff {x : Logged ε α} {f : α → Logged ε β} {b : β} :
    (x >>= f).outcome = .ok b ↔ ∃ a, x.outcome = .ok a ∧ (f a).outcome = .ok b := by
  rw [outcome_bind, except_bind_eq_ok_iff]

/-- After a value the records go on. -/
theorem records_bind_of_ok {x : Logged ε α} {a : α} (h : x.outcome = .ok a)
    (f : α → Logged ε β) : (x >>= f).records = x.records ++ (f a).records := by
  rcases x with ⟨r, o⟩
  cases h
  rfl

instance : LawfulMonad (Logged ε) := LawfulMonad.mk' (Logged ε)
  (by rintro α ⟨r, e | a⟩ <;> simp [Functor.map, Logged.bind, Logged.pure])
  (by intro α β a f; simp [Bind.bind, Pure.pure, Logged.bind, Logged.pure])
  (by
    rintro α β γ ⟨r, e | a⟩ f g
    · rfl
    · cases h : (f a).outcome <;> simp [Bind.bind, Logged.bind, h])

end Logged

end SymbolicCalculus
