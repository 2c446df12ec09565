/-!
# Handles

A device names what it holds by handles: the index of a module, a program, a
uniform or a texture among those it has made.  An index is any natural number here; a device
that stores handles in 32 bits gives out the same ones as long as it makes fewer than `2 ^ 32`
of a kind.
-/

namespace ShaderAssets

/-- Names a compiled stage on a device. -/
structure ModuleHandle where
  index : Nat
deriving DecidableEq, Repr, Inhabited

/-- Different modules have different indices. -/
theorem ModuleHandle.index_ne {h h' : ModuleHandle} (hne : h ≠ h') : h.index ≠ h'.index :=
  fun heq => hne (congrArg mk heq)

/-- Names a linked program on a device. -/
structure ProgramHandle where
  index : Nat
deriving DecidableEq, Repr, Inhabited

/-- Different programs have different indices. -/
theorem ProgramHandle.index_ne {h h' : ProgramHandle} (hne : h ≠ h') : h.index ≠ h'.index :=
  fun heq => hne (congrArg mk heq)

/-- Names a uniform on a device; all programs share it by name. -/
structure UniformHandle where
  index : Nat
deriving DecidableEq, Repr, Inhabited

/-- Names a texture on a device. -/
structure TextureHandle where
  index : Nat
deriving DecidableEq, Repr, Inhabited

end ShaderAssets
