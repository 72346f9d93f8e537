/-
# Computations that can fail

A computation made of steps has a result only if each of its steps has one.  Two computations end alike
if both fail for the same reason or both have results, which are related.
-/
namespace EmbeddedSql

variable {ε α β : Type}

theorem ok_of_bind_eq_ok {o : Except ε α} {f : α → Except ε β} {b : β} (h : (o >>= f) = .ok b) :
    ∃ a, o = .ok a ∧ f a = .ok b := by
  cases o with
  | error e => cases h
  | ok a => exact ⟨a, rfl, h⟩

theorem ok_of_map_eq_ok {o : Except ε α} {f : α → β} {b : β} (h : o.map f = .ok b) :
    ∃ a, o = .ok a ∧ f a = b := by
  cases o with
  | error e => cases h
  | ok a =>
      cases h
      exact ⟨a, rfl, rfl⟩

theorem toOption_eq_some {o : Except ε α} {a : α} : o.toOption = some a ↔ o = .ok a := by
  cases o with
  | error e => exact iff_of_false nofun nofun
  | ok b => exact ⟨fun h => congrArg Except.ok (Option.some.inj h), fun h => by cases h; rfl⟩

theorem exists_eq_ok {o : Except ε α} (h : o.toOption.isSome = true) : ∃ a, o = .ok a :=
  (Option.isSome_iff_exists.1 h).imp fun _ => toOption_eq_some.1

/-- Two computations fail alike, or have related results. -/
inductive EndAlike {α' : Type} (R : α → α' → Prop) : Except ε α → Except ε α' → Prop
  | error (e : ε) : EndAlike R (.error e) (.error e)
  | ok {a : α} {a' : α'} : R a a' → EndAlike R (.ok a) (.ok a')

namespace EndAlike

variable {α' β' : Type} {R : α → α' → Prop} {Q : β → β' → Prop} {o : Except ε α}
  {o' : Except ε α'}

theorem bind {f : α → Except ε β} {f' : α' → Except ε β'} (h : EndAlike R o o')
    (hf : ∀ a a', R a a' → EndAlike Q (f a) (f' a')) : EndAlike Q (o >>= f) (o' >>= f') := by
  cases h with
  | error e => exact .error e
  | ok hr => exact hf _ _ hr

theorem map {f : α → β} {f' : α' → β'} (h : EndAlike R o o') (hf : ∀ a a', R a a' → Q (f a) (f' a')) :
    EndAlike Q (o.map f) (o'.map f') := by
  cases h with
  | error e => exact .error e
  | ok hr => exact .ok (hf _ _ hr)

/-- If the second one has a result, so has the first. -/
theorem exists_ok {a' : α'} (h : EndAlike R o o') (ho : o' = .ok a') :
    ∃ a, o = .ok a ∧ R a a' := by
  cases h with
  | error e => cases ho
  | ok hr =>
      cases ho
      exact ⟨_, rfl, hr⟩

/-- A computation and itself. -/
theorem rfl_map {f : α → β} {f' : α → β'} (hf : ∀ a, Q (f a) (f' a)) :
    EndAlike Q (o.map f) (o.map f') := by
  cases o with
  | error e => exact .error e
  | ok a => exact .ok (hf a)

end EndAlike

end EmbeddedSql
