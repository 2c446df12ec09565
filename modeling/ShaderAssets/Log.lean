/-!
# Logged values

Operations that may warn give their value together with the messages they
logged, in order.
-/

namespace ShaderAssets

/-- A value with the messages logged on the way to it. -/
structure Logged (α : Type) where
  value : α
  log : List String
deriving Repr

namespace Logged

/-- A value with nothing logged. -/
protected def pure {α : Type} (value : α) : Logged α := ⟨value, []⟩

/-- Logs one message. -/
def warn (message : String) : Logged Unit := ⟨(), [message]⟩

/-- Goes on with a value, logging after what was logged before. -/
protected def bind {α β : Type} (x : Logged α) (f : α → Logged β) : Logged β :=
  ⟨(f x.value).value, x.log ++ (f x.value).log⟩

instance : Monad Logged where
  pure := Logged.pure
  bind := Logged.bind

/-- The value of a step is the value of what follows at the value of what went
before. -/
@[simp]
theorem value_bind {α β : Type} (x : Logged α) (f : α → Logged β) :
    (x >>= f).value = (f x.value).value :=
  rfl

/-- The messages of a step come before those of what follows. -/
@[simp]
theorem log_bind {α β : Type} (x : Logged α) (f : α → Logged β) :
    (x >>= f).log = x.log ++ (f x.value).log :=
  rfl

/-- A plain value is itself. -/
@[simp]
theorem value_pure {α : Type} (a : α) : (pure a : Logged α).value = a :=
  rfl

/-- A plain value logs nothing. -/
@[simp]
theorem log_pure {α : Type} (a : α) : (pure a : Logged α).log = [] :=
  rfl

end Logged

end ShaderAssets
