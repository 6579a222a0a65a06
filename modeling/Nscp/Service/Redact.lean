import Nscp.Service.FailedChecks

/-!
# Secrets in the messages of failed checks

A message is kept as it is, but for the value of a pair that looks like a password or a token.
Keys and values end at blanks, quotes, commas and semicolons, and what stands between two of these
is looked at by itself.
-/

namespace Nscp.Service.FailedChecks

open List

def isBoundary (c : Char) : Bool :=
  c ∈ [' ', '\t', '\n', '\r', '\x27', '"', ',', ';']

def shownValue (before tail : Text) : Text :=
  let key := before.rtakeWhile (!isBoundary ·)
  let value := tail.takeWhile (!isBoundary ·)
  if value ≠ [] ∧ isSensitiveArgument key then "***".toList else value

def redactFrom (done : Text) : Text → Text
  | [] => done
  | c :: rest =>
    if c ≠ '=' then redactFrom (done ++ [c]) rest
    else redactFrom (done ++ c :: shownValue done rest) (rest.dropWhile (!isBoundary ·))
termination_by rest => rest.length
decreasing_by
  · exact Nat.lt_succ_self _
  · exact Nat.lt_succ_of_le (dropWhile_suffix _).length_le

def redactMessage (message : Text) : Text := redactFrom [] message

theorem span_append_cons {p : Char → Bool} {b : Char} (hb : p b = false) (xs rest : Text) :
    (xs ++ b :: rest).takeWhile p = xs.takeWhile p ∧
      (xs ++ b :: rest).dropWhile p = xs.dropWhile p ++ b :: rest := by
  induction xs with
  | nil => simp [hb]
  | cons c xs ih => cases hc : p c <;> simp [hc, ih]

theorem span_append {p : Char → Bool} {xs rest : Text} (hxs : ∀ c ∈ xs, p c = true)
    (hrest : ∀ c ∈ rest.head?, p c = false) :
    (xs ++ rest).takeWhile p = xs ∧ (xs ++ rest).dropWhile p = rest := by
  have htake : xs.takeWhile p = xs := takeWhile_eq_self_iff.mpr hxs
  have hdrop : xs.dropWhile p = [] := dropWhile_eq_nil_iff.mpr hxs
  cases rest with
  | nil => simp [htake, hdrop]
  | cons b rest => simp [span_append_cons (hrest b rfl), htake, hdrop]

/-- A boundary parts a message. -/
theorem redactFrom_append_cons {b : Char} (hb : isBoundary b = true) (done xs rest : Text) :
    redactFrom done (xs ++ b :: rest) = redactFrom (redactFrom done xs ++ [b]) rest := by
  have hstop : (!isBoundary b) = false := by rw [hb, Bool.not_true]
  induction done, xs using redactFrom.induct with
  | case1 done =>
    have hne : b ≠ '=' := fun h => by simp [h, isBoundary] at hb
    rw [redactFrom, nil_append, redactFrom, if_pos hne]
  | case2 done c xs hc ih => rw [cons_append, redactFrom, redactFrom, if_pos hc, if_pos hc, ih]
  | case3 done c xs hc ih =>
    obtain ⟨htake, hdrop⟩ := span_append_cons (p := (!isBoundary ·)) hstop xs rest
    rw [cons_append, redactFrom, redactFrom, if_neg hc, if_neg hc, hdrop, ← ih, shownValue,
      shownValue, htake]

/-- Behind a boundary the scan does not look at what stands before it. -/
theorem redactFrom_append_of_boundary (before : Text) {done rest : Text}
    (hdone : ∃ c ∈ done, isBoundary c = true) :
    redactFrom (before ++ done) rest = before ++ redactFrom done rest := by
  induction done, rest using redactFrom.induct with
  | case1 done => rw [redactFrom, redactFrom]
  | case2 done c rest hc ih =>
    have hmore : ∃ c' ∈ done ++ [c], isBoundary c' = true :=
      hdone.imp fun _ h => h.imp_left (mem_append_left _)
    rw [redactFrom, redactFrom, if_pos hc, if_pos hc, append_assoc, ih hmore]
  | case3 done c rest hc ih =>
    have hword : (before ++ done).rtakeWhile (!isBoundary ·) = done.rtakeWhile (!isBoundary ·) := by
      obtain ⟨b, hb, hboundary⟩ := hdone
      obtain ⟨left, right, rfl⟩ := append_of_mem hb
      have hstop : (!isBoundary b) = false := by rw [hboundary, Bool.not_true]
      simp [rtakeWhile, span_append_cons (p := (!isBoundary ·)) hstop]
    have hmore : ∃ c' ∈ done ++ c :: shownValue done rest, isBoundary c' = true :=
      hdone.imp fun _ h => h.imp_left (mem_append_left _)
    rw [redactFrom, redactFrom, if_neg hc, if_neg hc, shownValue, hword, ← shownValue,
      append_assoc, ih hmore]

theorem redactFrom_of_stop {post : Text} (hpost : ∀ c ∈ post.head?, isBoundary c = true)
    (done : Text) : redactFrom done post = done ++ redactMessage post := by
  cases post with
  | nil => simp [redactMessage, redactFrom]
  | cons b post =>
    have hb := hpost b rfl
    have hne : b ≠ '=' := fun h => by simp [h, isBoundary] at hb
    rw [redactMessage, redactFrom, redactFrom, if_pos hne, if_pos hne, nil_append,
      redactFrom_append_of_boundary done ⟨b, mem_singleton_self b, hb⟩]

theorem redactFrom_append {word : Text} (hword : '=' ∉ word) (done rest : Text) :
    redactFrom done (word ++ rest) = redactFrom (done ++ word) rest := by
  induction word generalizing done with
  | nil => simp
  | cons c word ih =>
    rw [mem_cons, not_or] at hword
    rw [cons_append, redactFrom, if_pos (Ne.symm hword.1), ih hword.2, append_assoc]
    rfl

/-- What stands between two boundaries is a word, its first `=`, and a value that is shown or not
by the word alone. -/
theorem redactMessage_run {pre : Text} (word value post : Text)
    (hpre : ∀ c ∈ pre.getLast?, isBoundary c = true)
    (hword : ∀ c ∈ word, isBoundary c = false ∧ c ≠ '=')
    (hvalue : value ≠ [] ∧ ∀ c ∈ value, isBoundary c = false)
    (hpost : ∀ c ∈ post.head?, isBoundary c = true) :
    redactMessage (pre ++ (word ++ '=' :: (value ++ post))) = redactMessage pre ++ (word ++
      '=' :: ((if isSensitiveArgument word then "***".toList else value) ++
        redactMessage post)) := by
  have hrun : ∀ done : Text, (∀ c ∈ done.getLast?, isBoundary c = true) →
      redactFrom done (word ++ '=' :: (value ++ post)) = done ++ (word ++
        '=' :: ((if isSensitiveArgument word then "***".toList else value) ++
          redactMessage post)) := by
    intro done hdone
    have hplain : ∀ c ∈ word.reverse, (!isBoundary c) = true := by
      simpa using fun c hc => (hword c hc).1
    have hstart : ∀ c ∈ done.reverse.head?, (!isBoundary c) = false := by simpa using hdone
    have hkey : (done ++ word).rtakeWhile (!isBoundary ·) = word := by
      rw [rtakeWhile, reverse_append, (span_append hplain hstart).1, reverse_reverse]
    have hopen : ∀ c ∈ value, (!isBoundary c) = true := by simpa using hvalue.2
    have hstop : ∀ c ∈ post.head?, (!isBoundary c) = false := by simpa using hpost
    have hspan := span_append hopen hstop
    rw [redactFrom_append fun h => (hword _ h).2 rfl, redactFrom, if_neg (not_not.mpr rfl),
      hspan.2, shownValue, hkey, hspan.1, redactFrom_of_stop hpost]
    simp [hvalue.1]
  rcases eq_nil_or_concat' pre with rfl | ⟨xs, b, rfl⟩
  · simpa [redactMessage, redactFrom] using hrun [] (by simp)
  · have hb : isBoundary b = true := hpre b (by simp)
    have hparts : ∀ rest, redactMessage ((xs ++ [b]) ++ rest) =
        redactFrom (redactFrom [] xs ++ [b]) rest := fun rest => by
      rw [append_assoc, singleton_append]
      exact redactFrom_append_cons hb [] xs rest
    have hpreShown : redactMessage (xs ++ [b]) = redactFrom [] xs ++ [b] := by
      simpa [redactFrom] using hparts []
    rw [hparts, hpreShown]
    exact hrun _ (by simpa using hb)

/-- A key that looks like a secret's with its place in a message. -/
structure Pair where
  pre : Text
  key : Text
  post : Text
  start : ∀ c ∈ pre.getLast?, isBoundary c = true
  plain : ∀ c ∈ key, isBoundary c = false
  sensitive : isSensitiveArgument key = true
  stop : ∀ c ∈ post.head?, isBoundary c = true

/-- The message where the pair has the value. -/
def Pair.message (p : Pair) (value : Text) : Text :=
  p.pre ++ (p.key ++ '=' :: (value ++ p.post))

def Value := { value : Text // value ≠ [] ∧ ∀ c ∈ value, isBoundary c = false }

/-- The value of a pair is hidden exactly when the part of the key before its first `=` looks like
a secret's already: the scan steps over the rest of the run. -/
theorem redactMessage_hides_iff (p : Pair) :
    (∀ value value' : Value,
        redactMessage (p.message value.1) = redactMessage (p.message value'.1)) ↔
      isSensitiveArgument (p.key.takeWhile (· ≠ '=')) = true := by
  obtain ⟨pre, key, post, hpre, hplain, hsensitive, hpost⟩ := p
  simp only [Pair.message]
  by_cases hkey : '=' ∈ key
  · obtain ⟨word, rest, rfl, hword⟩ := eq_append_cons_of_mem hkey
    have hfirst : (word ++ '=' :: rest).takeWhile (· ≠ '=') = word :=
      (span_append (fun c hc => by simpa using ne_of_mem_of_not_mem hc hword) (by simp)).1
    have hshown := fun value : Value => redactMessage_run word (rest ++ '=' :: value.1) post hpre
      (fun c hc => ⟨hplain c (mem_append_left _ hc), fun h => hword (h ▸ hc)⟩)
      ⟨by simp, fun c hc => by
        rcases mem_append.mp hc with hrest | hvalue
        · exact hplain c (by simp [hrest])
        · exact forall_mem_cons.mpr ⟨by decide, value.2.2⟩ c hvalue⟩ hpost
    simp only [append_assoc, cons_append] at hshown
    simp only [append_assoc, cons_append, hshown, hfirst]
    refine ⟨fun hall => ?_, fun hhidden value value' => by simp [hhidden]⟩
    by_contra hopen
    have hletters := hall ⟨['a'], by simp [isBoundary]⟩ ⟨['b'], by simp [isBoundary]⟩
    simp [hopen] at hletters
  · have hfirst : key.takeWhile (· ≠ '=') = key :=
      takeWhile_eq_self_iff.mpr fun c hc => by simpa using ne_of_mem_of_not_mem hc hkey
    rw [hfirst]
    refine iff_of_true (fun value value' => ?_) hsensitive
    have hshown := fun value : Value => redactMessage_run key value.1 post hpre
      (fun c hc => ⟨hplain c hc, fun h => hkey (h ▸ hc)⟩) value.2 hpost
    simp [hshown, hsensitive]

/-- An option echoed in quotes, as a check reports it. -/
theorem redactMessage_hides_option :
    redactMessage "unknown option 'password=hunter2' a=b".toList =
      redactMessage "unknown option 'password=x=y' a=b".toList :=
  (redactMessage_hides_iff ⟨"unknown option '".toList, "password".toList, "' a=b".toList,
    by simp [isBoundary], by simp [isBoundary], by decide +kernel, by simp [isBoundary]⟩).mpr
      (by decide +kernel) ⟨"hunter2".toList, by simp [isBoundary]⟩
      ⟨"x=y".toList, by simp [isBoundary]⟩

/-- The scan steps over the value of `x` as a whole. -/
theorem redactMessage_nested :
    redactMessage "x=password=a".toList ≠ redactMessage "x=password=b".toList := by
  have hword : isSensitiveArgument ['x'] = false := by decide
  have hshown : ∀ c, isBoundary c = false →
      redactMessage ('x' :: '=' :: "password=".toList ++ [c]) =
      'x' :: '=' :: "password=".toList ++ [c] := fun c hc => by
    have hnone : ∀ d ∈ ([] : Text).getLast?, isBoundary d = true := by simp
    have hrun := redactMessage_run ['x'] ("password=".toList ++ [c]) [] hnone (by simp [isBoundary])
      ⟨by simp, forall_mem_append.mpr ⟨by simp [isBoundary], by simpa using hc⟩⟩ (by simp)
    rw [hword] at hrun
    simpa [redactMessage, redactFrom] using hrun
  intro h
  have hletters := (hshown 'a' rfl).symm.trans (h.trans (hshown 'b' rfl))
  exact absurd hletters (by decide)

end Nscp.Service.FailedChecks
