import Mathlib

/-! The literals of `Fin n` look for `NeZero n`; these are the sizes of the tables here. -/

namespace CapyOS.Lib

instance neZeroTwo : NeZero 2 := ⟨by decide⟩

instance neZeroEight : NeZero 8 := ⟨by decide⟩

instance neZeroTwelve : NeZero 12 := ⟨by decide⟩

instance neZeroSixteen : NeZero 16 := ⟨by decide⟩

instance neZeroSixtyFour : NeZero 64 := ⟨by decide⟩

instance neZeroByte : NeZero 256 := ⟨by decide⟩

end CapyOS.Lib
