import JobOperator.Proofs.Text.Digits
import JobOperator.Worker.Launch

/-!
# The names of workers

All jobs share one space of worker names, and the name of a job may itself look like
that of a worker. A name nevertheless tells its job and its attempt: the attempt is
written in digits, and a hyphen stands before them, so the last hyphen of a name is the
end of what comes from the job.

* `Worker.nameFor_inj`: different attempts, or attempts at different jobs, have
  workers of different names.
* `Worker.attemptOf?_nameFor`: the attempt that is read from a name is the one that it was
  made for. `Worker.attemptOf?_eq_some_iff`: for another job, none is read from it.
-/

namespace JobOperator.Worker

/-- What stands before the first hyphen, and what stands behind it, are determined by
the whole. -/
theorem append_hyphen_inj {xs ys rest rest' : List Char} (hx : '-' ∉ xs) (hy : '-' ∉ ys)
    (h : xs ++ '-' :: rest = ys ++ '-' :: rest') : xs = ys ∧ rest = rest' := by
  induction xs generalizing ys with
  | nil =>
    cases ys with
    | nil => exact ⟨rfl, (List.cons.inj h).2⟩
    | cons y ys => exact absurd (List.mem_cons.mpr (.inl (List.cons.inj h).1)) hy
  | cons x xs ih =>
    cases ys with
    | nil => exact absurd (List.mem_cons.mpr (.inl (List.cons.inj h).1.symm)) hx
    | cons y ys =>
      obtain ⟨rfl, htail⟩ := List.cons.inj h
      obtain ⟨rfl, hrest⟩ :=
        ih (fun hm => hx (List.mem_cons_of_mem _ hm)) (fun hm => hy (List.mem_cons_of_mem _ hm))
          htail
      exact ⟨rfl, hrest⟩

/-- A number is written without hyphens. -/
theorem hyphen_not_mem_toDigits (n : Nat) : '-' ∉ Nat.toDigits 10 n := by
  intro h
  simpa using Nat.isDigit_of_mem_toDigits (by decide) (by decide) h

/-- The characters of the name of a worker. -/
theorem toList_nameFor (job : String) (attempt : UInt32) :
    (nameFor job attempt).toList =
      job.toList ++ "-worker-".toList ++ Nat.toDigits 10 attempt.toNat := by
  simp only [nameFor, String.toList_append, toString, Nat.toList_repr]

/-- Where no hyphen follows, the last delimiter ends what comes from the job, whatever the name of
the job may hold. -/
theorem append_delimiter_inj {job job' digits digits' : List Char} (hd : '-' ∉ digits)
    (hd' : '-' ∉ digits') (h : job ++ "-worker-".toList ++ digits =
      job' ++ "-worker-".toList ++ digits') : job = job' ∧ digits = digits' := by
  -- read backwards, there are the digits, a hyphen, and the rest
  have hl := congrArg List.reverse h
  simp only [List.reverse_append] at hl
  obtain ⟨hdigits, hrest⟩ := append_hyphen_inj (mt List.mem_reverse.mp hd)
    (mt List.mem_reverse.mp hd') hl
  exact ⟨by simpa using hrest, List.reverse_inj.mp hdigits⟩

/-- A worker's name tells the job and the attempt. -/
theorem nameFor_inj {job job' : String} {attempt attempt' : UInt32}
    (h : nameFor job attempt = nameFor job' attempt') : job = job' ∧ attempt = attempt' := by
  have hl := congrArg String.toList h
  rw [toList_nameFor, toList_nameFor] at hl
  obtain ⟨hjob, hdigits⟩ := append_delimiter_inj (hyphen_not_mem_toDigits attempt.toNat)
    (hyphen_not_mem_toDigits attempt'.toNat) hl
  have hnum : attempt.toNat = attempt'.toNat := by
    rw [← Nat.ofDigitChars_ten_toDigits (n := attempt.toNat), hdigits,
      Nat.ofDigitChars_ten_toDigits]
  exact ⟨String.toList_inj.mp hjob, UInt32.toNat_inj.mp hnum⟩

/-! ## Reading a name -/

/-- A number is read as it was written. -/
theorem unsigned?_toDigits {bound n : Nat} (h : n < bound) :
    Digits.unsigned? bound (String.ofList (Nat.toDigits 10 n)) = some n := by
  obtain ⟨-, hdigits, hvalue⟩ := Digits.spells_toDigits n
  have hnatural : Digits.natural? (Nat.toDigits 10 n) = some n :=
    Digits.natural?_eq_some_iff.mpr ⟨Nat.toDigits_ne_nil, hdigits, hvalue⟩
  unfold Digits.unsigned?
  dsimp only
  rw [String.toList_ofList]
  split
  · next cs heq =>
    -- a plus sign is no digit
    have hplus := hdigits '+' (by rw [heq]; exact List.mem_cons_self ..)
    exact absurd hplus (by decide)
  · rw [hnatural]
    simp [h]

/-- A worker's name tells the attempt at its job. -/
theorem attemptOf?_nameFor (job : String) (attempt : UInt32) :
    attemptOf? job (nameFor job attempt) = some attempt := by
  unfold attemptOf?
  rw [toList_nameFor, List.append_assoc, Text.after?_eq_some_iff.mpr rfl]
  dsimp only [Option.bind_eq_bind, Option.bind_some]
  rw [Text.after?_eq_some_iff.mpr rfl, Option.bind_some, unsigned?_toDigits attempt.toNat_lt]
  simp

/-- What is read as a number holds no hyphen, though it may be spelled otherwise than numbers are
written. -/
theorem hyphen_not_mem_of_unsigned? {bound n : Nat} {cs : List Char}
    (h : Digits.unsigned? bound (String.ofList cs) = some n) : '-' ∉ cs := by
  unfold Digits.unsigned? at h
  rw [String.toList_ofList] at h
  obtain ⟨hnatural, -⟩ := Option.filter_eq_some_iff.mp h
  obtain ⟨-, hdigits, -⟩ := Digits.natural?_eq_some_iff.mp hnatural
  intro hmem
  split at hdigits
  · -- behind the plus sign there are digits only
    rcases List.mem_cons.mp hmem with heq | hmem
    · exact absurd heq (by decide)
    · exact absurd (hdigits _ hmem) (by decide)
  · exact absurd (hdigits _ hmem) (by decide)

/-- **Nothing is told of another job**, and of its own a name tells the attempt that it was made
for. -/
theorem attemptOf?_eq_some_iff {job job' : String} {attempt told : UInt32} :
    attemptOf? job (nameFor job' attempt) = some told ↔ job = job' ∧ told = attempt := by
  constructor
  · intro h
    have hread := h
    unfold attemptOf? at hread
    obtain ⟨rest, hrest, hread⟩ := Option.bind_eq_some_iff.mp hread
    obtain ⟨digits, hdigits, hread⟩ := Option.bind_eq_some_iff.mp hread
    obtain ⟨n, hnumber, -⟩ := Option.map_eq_some_iff.mp hread
    have hname := Text.after?_eq_some_iff.mp hrest
    rw [Text.after?_eq_some_iff.mp hdigits, toList_nameFor, ← List.append_assoc] at hname
    obtain ⟨hjob, -⟩ := append_delimiter_inj (hyphen_not_mem_toDigits _)
      (hyphen_not_mem_of_unsigned? hnumber) hname
    obtain rfl := String.toList_inj.mp hjob
    rw [attemptOf?_nameFor] at h
    exact ⟨rfl, (Option.some.inj h).symm⟩
  · rintro ⟨rfl, rfl⟩
    exact attemptOf?_nameFor job told

end JobOperator.Worker
