import RustBL.Bootloader.Elf.Lockstep

/-!
# A firmware that answers from a sequence

`answering` grants and refuses by a sequence of answers that is its state, so a start of the loader
can fix beforehand which requests are granted. Wherever the loader gets to on an image, it gets
there on a sequence that begins with enough grants (`loop_answering`), and once every answer is a
refusal the memory changes no more (`mem_of_refused`).
-/

set_option autoImplicit false
set_option relaxedAutoImplicit false

namespace RustBL

namespace Elf

/-- A firmware whose state is the sequence of its answers. -/
def answering : PageAllocator (ℕ → Bool) where
  allocatePages answers _ _ := (answers 0, fun n ↦ answers (n + 1))

/-- A start on a firmware that grants everything. -/
def grantingAll : LoaderState (ℕ → Bool) :=
  ⟨fun _ ↦ 0, fun _ ↦ true, []⟩

/-- A start on a firmware that grants `count` requests and no more. -/
def grantingFirst (count : ℕ) : LoaderState (ℕ → Bool) :=
  ⟨fun _ ↦ 0, fun n ↦ decide (n < count), []⟩

theorem grantingFirst_granted {count n : ℕ} (hn : n < count) :
    (grantingFirst count).firmware n = true := by
  have hanswer : decide (n < count) = true := decide_eq_true hn
  exact hanswer

theorem grantingFirst_refused {count n : ℕ} (hn : count ≤ n) :
    (grantingFirst count).firmware n = false := by
  have hanswer : decide (n < count) = false := decide_eq_false (not_lt.mpr hn)
  exact hanswer

/-- The number of requests for the segments among `remaining` headers from `index` on. -/
def Image.requests (image : Image) (remaining index : ℕ) : ℕ :=
  ((image.loads remaining index).flatMap LoadSegment.grant).length

section Answering

variable {image image' : Image} {index : ℕ}

/-- Every segment takes as many answers as it makes requests. -/
theorem firmwareAfter_answering (segment : LoadSegment) (answers : ℕ → Bool) :
    segment.firmwareAfter answering answers = fun n ↦ answers (n + segment.grant.length) := by
  rw [LoadSegment.firmwareAfter, LoadSegment.grant]
  split_ifs <;> rfl

/-- The requests of a segment are granted when the first answers are. -/
theorem grants_answering {segment : LoadSegment} {answers : ℕ → Bool}
    (hyes : ∀ n < segment.grant.length, answers n = true) : segment.Grants answering answers := by
  intro hpages
  rw [LoadSegment.grant, if_neg hpages] at hyes
  exact hyes 0 Nat.one_pos

theorem firmware_foldl_answering (segments : List LoadSegment) (s : LoaderState (ℕ → Bool)) :
    (segments.foldl (LoadSegment.loaded answering image) s).firmware =
      fun n ↦ s.firmware (n + (segments.flatMap LoadSegment.grant).length) := by
  induction segments generalizing s with
  | nil => rfl
  | cons segment segments ih =>
    have hfirst : (segment.loaded answering image s).firmware =
        fun n ↦ s.firmware (n + segment.grant.length) := firmwareAfter_answering segment s.firmware
    rw [List.foldl_cons, ih, hfirst, List.flatMap_cons, List.length_append]
    funext n
    exact congrArg s.firmware (by omega)

/-- Wherever the loader gets to, the loop returns when enough requests are granted. -/
theorem walk_answering {remaining k : ℕ} (hreach : image.Reaches (k + remaining))
    {answers : ℕ → Bool} (hyes : ∀ n < image.requests remaining k, answers n = true) :
    firstFailure (walkChecks answering image remaining k answers) = none := by
  induction remaining generalizing k answers with
  | zero => rfl
  | succ remaining ih =>
    have hnext : image.Reaches (k + 1 + remaining) := by
      rwa [Nat.add_right_comm, Nat.add_assoc]
    rw [walkChecks, firstFailure_append, hreach.sane_at (Nat.lt_add_of_pos_right (Nat.succ_pos _))]
    simp only [Option.elim]
    by_cases hload : image.IsLoad k
    swap
    · rw [Image.requests, image.loads_succ_of_not_load hload] at hyes
      rw [if_neg hload]
      exact ih hnext hyes
    rw [Image.requests, image.loads_succ_of_load hload, List.flatMap_cons, List.length_append]
      at hyes
    have hgrants : (image.segment k).Grants answering answers :=
      grants_answering fun n hn ↦ hyes n (Nat.lt_add_right _ hn)
    rw [if_pos hload, firstFailure_cons_pos hgrants,
      firstFailure_cons_pos (hreach.length_fits k (Nat.lt_add_of_pos_right (Nat.succ_pos _)) hload),
      firmwareAfter_answering]
    refine ih hnext fun n hn ↦ hyes _ ?_
    rw [Nat.add_comm]
    exact Nat.add_lt_add_left hn _

/-- Wherever the loader gets to, the loop has loaded the segments so far when enough requests are
granted. -/
theorem loop_answering {count : ℕ} (hreach : image.Reaches count) {s : LoaderState (ℕ → Bool)}
    (hyes : ∀ n < image.requests count 0, s.firmware n = true) :
    loadSegments answering image image.phoff PHDR_SIZE count 0 .start s =
      .ok ((image.loads count 0).foldl Extent.add .start)
        ((image.loads count 0).foldl (LoadSegment.loaded answering image) s) := by
  have hloop := loadSegments_eq answering image count 0 .start s
  have hreach' : image.Reaches (0 + count) := by rwa [Nat.zero_add]
  rw [walk_answering hreach' hyes] at hloop
  exact hloop

/-- A firmware that refuses everything leaves the memory alone. -/
theorem mem_of_refused {remaining k : ℕ} {extent : Extent} {s : LoaderState (ℕ → Bool)}
    (hno : s.firmware = fun _ ↦ false) :
    (finalState (loadSegments answering image image.phoff PHDR_SIZE remaining k extent s)).mem =
      s.mem := by
  induction remaining generalizing k extent with
  | zero => rfl
  | succ remaining ih =>
    cases hsane : firstFailure (image.sanityChecks k) with
    | some stop => rw [loadSegments_stop answering hsane]; rfl
    | none =>
    by_cases hload : image.IsLoad k
    swap
    · rw [loadSegments_skip answering hsane hload]
      exact ih
    rw [loadSegments_load answering hsane hload]
    have hsegment := image.sane_of_checks hload hsane
    have hvaddr := image.segment_vaddr_lt k
    by_cases hpages : (image.segment k).pageCount = 0
    · rw [bind_ok (loadSegment_of_no_pages answering hsegment hvaddr hpages s)]
      exact ih
    · have hrefused : ¬ (image.segment k).Grants answering s.firmware := by
        intro hgrants
        have hanswer : s.firmware 0 = true := hgrants hpages
        rw [hno] at hanswer
        exact nomatch hanswer
      rw [bind_error (loadSegment_of_refused answering hsegment hvaddr hrefused)]
      rfl

end Answering

end Elf

end RustBL
