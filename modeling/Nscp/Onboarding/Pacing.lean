import Nscp.Onboarding.FactsPacer

/-!
# Upload pacing

What a run of the pacer keeps between two uploads of one document: the time from which it
may go again, the record that it was confirmed, and the refusal that outlasts both.
-/

namespace Nscp.Onboarding

open List Nat Prod Pacer Runs.Guarded
open Option hiding min_eq_right

variable {p q : Pacer} {hash current : String} {now t : ℕ} {answer : Option String}

namespace Pacer

theorem le_step (taken : ℕ) : seconds 60 ≤ step taken := by
  have hshift : 60 ≤ 60 <<< min taken 6 := by
    rw [shiftLeft_eq]
    exact Nat.le_mul_of_pos_right 60 (Nat.two_pow_pos _)
  exact mul_le_mul_right _ (le_min hshift (by decide))

theorem step_eq (taken : ℕ) : step taken = seconds (min (60 * 2 ^ taken) 3600) := by
  rw [step, shiftLeft_eq]
  rcases le_total taken 6 with h | h
  · rw [min_eq_left h]
  · have hpow : 2 ^ 6 ≤ 2 ^ taken := Nat.pow_le_pow_right (by decide) h
    rw [min_eq_right h, min_eq_right (show 3600 ≤ 60 * 2 ^ 6 by decide), min_eq_right]
    exact le_trans (by decide) (mul_le_mul_left 60 hpow)

theorem step_mono {m n : ℕ} (h : m ≤ n) : step m ≤ step n := by
  rw [step_eq, step_eq]
  refine mul_le_mul_right _ (min_le_min_right _ ?_)
  exact Nat.mul_le_mul_left 60 (Nat.pow_le_pow_right (by decide) h)

/-! ## When an upload is due -/

/-- The answers of `shouldUpload`, rule by rule. -/
structure Due (p : Pacer) (current : String) (now : ℕ) : Prop where
  turn : p.skipThisTurn = false
  document : current ≠ ""
  miss : ∃ held, p.server = some held ∧ current ≠ held
  notRefused : current = p.refusedHash → p.refusedUntil ≤ now
  notHeld : p.holdUntil ≤ now
  notRejected : current = p.rejectedHash → p.retryAt ≤ now
  notSent : current = p.acked → p.resendAt ≤ now

theorem due_of_shouldUpload (h : p.shouldUpload current now = true) : p.Due current now := by
  simp only [shouldUpload] at h
  split_ifs at h with hskip hmiss hheld hrefused hhold hrejected hacked
  rw [not_or] at hmiss
  obtain ⟨held, hserver⟩ := ne_none_iff_exists'.mp hmiss.1
  refine ⟨by simpa using hskip, hmiss.2, ⟨held, hserver, ?_⟩, ?_, not_lt.mp hhold, ?_, ?_⟩
  · rintro rfl
    exact hheld hserver.symm
  · exact fun he => not_lt.mp fun hlt => hrefused ⟨he, hlt⟩
  · exact fun he => not_lt.mp fun hlt => hrejected ⟨he, hlt⟩
  · exact fun he => not_lt.mp fun hlt => hacked ⟨he, hlt⟩

/-! ## What an acknowledgement leaves -/

def counted (p : Pacer) (hash : String) (now : ℕ) : Pacer :=
  (p.clearRejections.release hash).countAck hash now

section

variable (p : Pacer) (hash : String) (now : ℕ) (answer : Option String)

def answered : Pacer × Bool :=
  (p.counted hash now).readAnswer p.server hash now answer

def verdict : Bool :=
  (p.acknowledged hash now answer).2.mismatch

end

section

variable (p hash now answer)

theorem acknowledged_fst :
    (p.acknowledged hash now answer).1 = if p.verdict hash now answer then
        (p.answered hash now answer).1.refuseMismatch hash now answer (p.answered hash now answer).2
      else (p.answered hash now answer).1 :=
  rfl

def sending (p : Pacer) : String × Bool × ℕ × ℕ :=
  (p.acked, p.confirmed, p.resends, p.resendAt)

theorem of_sending {p : Pacer} {doc : String} {c : Bool} {n : ℕ} (h : p.sending = (doc, c, n, t)) :
    p.acked = doc ∧ p.confirmed = c ∧ p.resends = n ∧ p.resendAt = t := by
  simpa [sending] using h

theorem sending_refuseMismatch (differs : Bool) :
    (p.refuseMismatch hash now answer differs).sending = p.sending := by
  simp only [refuseMismatch]
  split_ifs <;> rfl

theorem sending_acknowledged :
    (p.acknowledged hash now answer).1.sending = (p.answered hash now answer).1.sending := by
  rw [acknowledged_fst]
  split_ifs
  · exact sending_refuseMismatch _ _ _ _ _
  · rfl

theorem acked_counted : (p.counted hash now).acked = hash := by
  simp only [counted, countAck]
  split_ifs with h <;> first | exact h.symm | rfl

theorem le_resendAt_counted : now + seconds 60 ≤ (p.counted hash now).resendAt := by
  simp only [counted, countAck]
  split_ifs <;> exact Nat.add_le_add_left (le_step _) now

theorem acked_confirm : (p.confirm now).acked = p.acked := by
  simp only [confirm]
  split_ifs <;> rfl

theorem confirmed_confirm : (p.confirm now).confirmed = true := by
  simp only [confirm]
  split_ifs <;> rfl

end

theorem sending_readAnswer_of_ne (h : answer ≠ some hash) (held : Option String) :
    (p.readAnswer held hash now answer).1.sending = p.sending := by
  rcases answer with _ | digest
  · rfl
  have hne : digest ≠ hash := fun he => h (he ▸ rfl)
  simp only [readAnswer, if_neg hne]
  split_ifs <;> rfl

theorem sending_readAnswer_self (held : Option String) :
    (p.readAnswer held hash now (some hash)).1.sending = (p.confirm now).sending := by
  simp only [readAnswer, if_true]
  split_ifs <;> rfl

theorem resends_counted_pos (hacked : p.acked = hash) (hconfirmed : p.confirmed = true)
    (hrefused : p.refusedHash ≠ hash) : 0 < (p.counted hash now).resends := by
  have hrelease : p.clearRejections.release hash = p.clearRejections := by
    rw [release, if_neg]
    exact fun h => hrefused h.2.symm
  simp only [counted, hrelease, countAck]
  rw [if_pos (show hash = p.clearRejections.acked from hacked.symm),
    if_pos (show p.clearRejections.confirmed = true from hconfirmed)]
  exact succ_pos _

theorem sending_confirm_of_lt (hresends : 0 < p.resends) (hlt : now < p.resendAt) :
    (p.confirm now).sending = (p.acked, true, p.resends, p.resendAt) := by
  simp only [confirm]
  rw [if_neg]
  · rfl
  · exact not_or.mpr ⟨ne_of_gt hresends, not_le.mpr hlt⟩

section

variable (p hash now answer)

/-- What decides about the next upload is the counted acknowledgement, confirmed where the
header repeats the document's hash. -/
theorem sending_acknowledged_eq :
    (p.acknowledged hash now answer).1.sending =
      if answer = some hash then ((p.counted hash now).confirm now).sending
      else (p.counted hash now).sending := by
  rw [sending_acknowledged]
  split_ifs with h
  · subst h
    exact sending_readAnswer_self _
  · exact sending_readAnswer_of_ne h _

theorem acked_acknowledged : (p.acknowledged hash now answer).1.acked = hash := by
  refine (congrArg fst (sending_acknowledged_eq p hash now answer)).trans ?_
  split_ifs
  · exact (acked_confirm _ _).trans (acked_counted p hash now)
  · exact acked_counted p hash now

theorem confirmed_acknowledged :
    (p.acknowledged hash now (some hash)).1.confirmed = true := by
  have hsending := sending_acknowledged_eq p hash now (some hash)
  rw [if_pos rfl] at hsending
  exact (of_sending hsending).2.1.trans (confirmed_confirm _ _)

end

theorem le_resendAt_acknowledged (h : answer ≠ some hash) :
    now + seconds 60 ≤ (p.acknowledged hash now answer).1.resendAt := by
  have hsending := sending_acknowledged_eq p hash now answer
  rw [if_neg h] at hsending
  exact (le_resendAt_counted p hash now).trans_eq (of_sending hsending).2.2.2.symm

/-- A document that is sent again because it was lost waits for a step, whatever the header of
the acknowledgement says. -/
theorem lost_acknowledged (now : ℕ) (answer : Option String) (hacked : p.acked = hash)
    (hconfirmed : p.confirmed = true) (hrefused : p.refusedHash ≠ hash) :
    now + seconds 60 ≤ (p.acknowledged hash now answer).1.resendAt ∧
      0 < (p.acknowledged hash now answer).1.resends := by
  have hresends : 0 < (p.counted hash now).resends :=
    resends_counted_pos hacked hconfirmed hrefused
  have hat := le_resendAt_counted p hash now
  have hlt : now < (p.counted hash now).resendAt :=
    lt_of_lt_of_le (Nat.lt_add_of_pos_right (by decide)) hat
  have hsending := sending_acknowledged_eq p hash now answer
  have hkept : (p.acknowledged hash now answer).1.resends = (p.counted hash now).resends ∧
      (p.acknowledged hash now answer).1.resendAt = (p.counted hash now).resendAt := by
    split_ifs at hsending
    · rw [sending_confirm_of_lt hresends hlt] at hsending
      exact (of_sending hsending).2.2
    · exact (of_sending hsending).2.2
  rw [hkept.1, hkept.2]
  exact ⟨hat, hresends⟩

/-! ## What a report of the server leaves -/

def reported (p : Pacer) (hash : String) (now : ℕ) : Pacer :=
  if p.acked ≠ "" ∧ hash = p.acked then ({ p with server := some hash } : Pacer).confirm now
  else { p with server := some hash }

def Clears (p : Pacer) (hash : String) : Prop :=
  p.refusedHash ≠ "" ∧ p.refusedServer ≠ none ∧ p.refusedServer ≠ some hash ∧ hash ≠ p.acked

instance (p : Pacer) (hash : String) : Decidable (p.Clears hash) :=
  inferInstanceAs (Decidable (_ ∧ _ ∧ _ ∧ _))

def compared (p : Pacer) (hash : String) : Pacer :=
  if p.Clears hash then p.clearRefusal
  else { p with
    refusedServer :=
      if p.refusedHash = "" then p.refusedServer else some (p.refusedServer.getD hash) }

section

variable (p hash now)

theorem serverHolds_eq :
    p.serverHolds hash now = (p.reported hash now).compared hash := by
  dsimp only [serverHolds]
  rw [← reported]
  generalize p.reported hash now = q
  by_cases hempty : q.refusedHash = ""
  · rw [if_pos hempty, compared, if_neg (fun h => h.1 hempty), if_pos hempty]
  · rw [if_neg hempty, compared, if_neg hempty]
    rcases hbase : q.refusedServer with _ | base
    · rw [if_neg (fun h => h.2.1 hbase), getD_none]
    have hsome : q.refusedServer ≠ none := hbase ▸ some_ne_none base
    have hiff : q.Clears hash ↔ hash ≠ base ∧ hash ≠ q.acked := by
      constructor
      · exact fun h => ⟨fun he => h.2.2.1 (he ▸ hbase), h.2.2.2⟩
      · exact fun h => ⟨hempty, hsome,
          fun he => h.1 (some.inj (hbase.symm.trans he)).symm, h.2⟩
    have hkeep : ({ q with refusedServer := some ((some base).getD hash) } : Pacer) = q := by
      rw [getD_some, ← hbase]
    simp only [hiff, hkeep]

theorem acked_reported : (p.reported hash now).acked = p.acked := by
  rw [reported]
  split_ifs
  · exact acked_confirm _ _
  · rfl

/-- What is not of the refusal is left as it is when the report is compared with it. -/
theorem view_serverHolds {α : Type} (view : Pacer → α)
    (hclear : ∀ q : Pacer, view q.clearRefusal = view q)
    (hbase : ∀ (q : Pacer) held, view { q with refusedServer := held } = view q) :
    view (p.serverHolds hash now) = view (p.reported hash now) := by
  rw [serverHolds_eq, compared]
  split_ifs
  · exact hclear _
  all_goals exact hbase _ _

theorem acked_serverHolds : (p.serverHolds hash now).acked = p.acked := by
  rw [view_serverHolds p hash now acked (fun _ => rfl) (fun _ _ => rfl), acked_reported]

theorem sending_serverHolds :
    (p.serverHolds hash now).sending =
      if p.acked ≠ "" ∧ hash = p.acked then (p.confirm now).sending else p.sending := by
  rw [view_serverHolds p hash now sending (fun _ => rfl) (fun _ _ => rfl), reported]
  simp only [confirm]
  split_ifs <;> rfl

/-- The document that is not offered, until when, and what the server reported first. -/
def refusal (p : Pacer) : String × ℕ × Option String :=
  (p.refusedHash, p.refusedUntil, p.refusedServer)

theorem of_refusal {p : Pacer} {doc : String} {base : Option String}
    (h : p.refusal = (doc, t, base)) :
    p.refusedHash = doc ∧ p.refusedUntil = t ∧ p.refusedServer = base := by
  simpa [refusal] using h

theorem refusal_countAck : (p.countAck hash now).refusal = p.refusal := by
  simp only [countAck]
  split_ifs <;> rfl

theorem refusal_release :
    (p.release hash).refusal =
      if p.refusedHash ≠ "" ∧ hash = p.refusedHash then ("", 0, none) else p.refusal := by
  rw [release]
  split_ifs <;> rfl

variable (answer)

theorem refusal_answered :
    (p.answered hash now answer).1.refusal = (p.release hash).refusal := by
  have hcounted : (p.counted hash now).refusal = (p.release hash).refusal := by
    rw [counted, refusal_countAck, refusal_release, refusal_release]
    rfl
  rw [← hcounted]
  rcases answer with _ | digest
  · rfl
  simp only [answered, readAnswer, confirm]
  split_ifs <;> rfl

theorem refusal_refuseMismatch (differs : Bool) :
    (p.refuseMismatch hash now answer differs).refusal =
      (hash, now + seconds (24 * 3600), answer) := by
  cases answer <;> cases differs <;> rfl

theorem refusal_acknowledged :
    (p.acknowledged hash now answer).1.refusal =
      if p.verdict hash now answer then (hash, now + seconds (24 * 3600), answer)
      else (p.release hash).refusal := by
  rw [acknowledged_fst]
  split_ifs
  · exact refusal_refuseMismatch _ _ _ _ _
  · exact refusal_answered p hash now answer

def waits (p : Pacer) : String × ℕ × ℕ × ℕ :=
  (p.rejectedHash, p.rejections, p.retryAt, p.holdUntil)

theorem waits_serverHolds : (p.serverHolds hash now).waits = p.waits := by
  rw [view_serverHolds p hash now waits (fun _ => rfl) (fun _ _ => rfl), reported]
  simp only [confirm]
  split_ifs <;> rfl

theorem holdUntil_acknowledged :
    (p.acknowledged hash now answer).1.holdUntil = p.holdUntil := by
  have hrelease : (p.clearRejections.release hash).holdUntil = p.holdUntil := by
    rw [release]
    split_ifs <;> rfl
  have hcounted : (p.counted hash now).holdUntil = p.holdUntil := by
    rw [← hrelease]
    simp only [counted, countAck]
    split_ifs <;> rfl
  have hanswered : (p.answered hash now answer).1.holdUntil = p.holdUntil := by
    rw [← hcounted]
    rcases answer with _ | digest
    · rfl
    simp only [answered, readAnswer, confirm]
    split_ifs <;> rfl
  rw [acknowledged_fst, ← hanswered]
  simp only [refuseMismatch]
  split_ifs <;> rfl

theorem refusal_reported :
    (p.reported hash now).refusedHash = p.refusedHash ∧
      (p.reported hash now).refusedUntil = p.refusedUntil ∧
      (p.reported hash now).refusedServer = p.refusedServer := by
  simp only [reported, confirm]
  split_ifs <;> exact ⟨rfl, rfl, rfl⟩

theorem clears_reported : (p.reported hash now).Clears hash ↔ p.Clears hash := by
  obtain ⟨hhash, -, hserver⟩ := refusal_reported p hash now
  rw [Clears, Clears, hhash, hserver, acked_reported]

theorem refusal_serverHolds :
    (p.serverHolds hash now).refusal = if p.Clears hash then ("", 0, none)
      else (p.refusedHash, p.refusedUntil,
        if p.refusedHash = "" then p.refusedServer else some (p.refusedServer.getD hash)) := by
  obtain ⟨hhash, huntil, hserver⟩ := refusal_reported p hash now
  rw [serverHolds_eq, compared]
  simp only [clears_reported, hhash, hserver]
  split_ifs
  · rfl
  all_goals exact Prod.ext rfl (Prod.ext huntil rfl)

end

theorem refusedUntil_acknowledged (hne : hash ≠ "")
    (h : (p.acknowledged hash now answer).1.refusedHash = hash) :
    (p.acknowledged hash now answer).1.refusedUntil = now + seconds (24 * 3600) := by
  have hrefusal := refusal_acknowledged p hash now answer
  split_ifs at hrefusal
  · exact (of_refusal hrefusal).2.1
  · rw [refusal_release] at hrefusal
    split_ifs at hrefusal with hreleased
    · exact absurd (h.symm.trans (congrArg fst hrefusal)) hne
    · have hhash : p.refusedHash = hash := (congrArg fst hrefusal).symm.trans h
      exact absurd ⟨hhash ▸ hne, hhash.symm⟩ hreleased

end Pacer

/-! ## What each event keeps -/

/-- An event that uploads no other document than `hash`. -/
def Event.Only (hash : String) (e : Event) : Prop :=
  ∀ u, e = .upload u → u.hash = hash

def Event.isUpload : Event → Bool
  | .upload _ => true
  | _ => false

/-- An event whose upload, if it is one, is a rejected one of the document. -/
def Event.OnlyRejects (hash : String) (e : Event) : Prop :=
  ∀ u, e = .upload u → u.hash = hash ∧ u.outcome = .rejected

/-- An event that says that the server holds the document `hash`. -/
def Event.Confirms (hash : String) : Event → Prop
  | .serverHolds held _ => held = hash
  | .upload u => u.hash = hash ∧ u.outcome = .acknowledged (some hash)
  | _ => False

namespace Paced

variable {s : Paced} {e : Event} {u : Upload}

theorem clock_le_next (hok : s.allowed e = true) : s.clock ≤ (s.next e).clock := by
  cases e with
  | upload u =>
    simp only [allowed, Bool.and_eq_true, decide_eq_true_eq] at hok
    exact hok.1.1.trans hok.1.2
  | _ => exact of_decide_eq_true hok

theorem upload_allowed (hok : s.allowed (.upload u) = true) :
    s.clock ≤ u.asked ∧ u.asked ≤ u.now ∧ s.pacer.Due u.hash u.asked := by
  simp only [allowed, Bool.and_eq_true, decide_eq_true_eq] at hok
  exact ⟨hok.1.1, hok.1.2, due_of_shouldUpload hok.2⟩

theorem next_acknowledged (h : u.outcome = .acknowledged answer) :
    s.next (.upload u) = ⟨(s.pacer.acknowledged u.hash u.now answer).1, u.now⟩ := by
  rw [next, report, h]

/-- Only an acknowledgement and a report of the server touch what decides about sending the
acknowledged document again. -/
theorem sending_next (s : Paced) (e : Event) :
    (∃ held now, e = .serverHolds held now) ∨
      (∃ u answer, e = .upload u ∧ u.outcome = .acknowledged answer) ∨
      (s.next e).pacer.sending = s.pacer.sending := by
  cases e with
  | serverHolds held now => exact .inl ⟨held, now, rfl⟩
  | upload u =>
    obtain ⟨hash, asked, now, outcome⟩ := u
    cases outcome with
    | acknowledged answer => exact .inr (.inl ⟨_, answer, rfl, rfl⟩)
    | rejected | refused => exact .inr (.inr rfl)
  | _ => exact .inr (.inr rfl)

/-! ### A document since its acknowledgement -/

/-- The document was acknowledged at `t`, no other one since, and a refusal of it since then
lasts for a day. -/
structure Sent (hash : String) (t : ℕ) (s : Paced) : Prop where
  document : hash ≠ ""
  time : t ≤ s.clock
  acked : s.pacer.acked = hash
  refused : s.pacer.refusedHash = hash → t + seconds (24 * 3600) ≤ s.pacer.refusedUntil

theorem Sent.of_acknowledged (hok : s.allowed (.upload u) = true)
    (houtcome : u.outcome = .acknowledged answer) (ht : t ≤ u.now) :
    Sent u.hash t (s.next (.upload u)) := by
  obtain ⟨-, -, hdue⟩ := upload_allowed hok
  rw [next_acknowledged houtcome]
  refine ⟨hdue.document, ht, acked_acknowledged _ _ _ _, fun h => ?_⟩
  rw [refusedUntil_acknowledged hdue.document h]
  exact Nat.add_le_add_right ht _

theorem Sent.next (h : Sent hash t s) (honly : e.Only hash) (hok : s.allowed e = true) :
    Sent hash t (s.next e) := by
  have hclock := h.time.trans (clock_le_next hok)
  cases e with
  | serverHolds held now =>
    refine ⟨h.document, hclock, (acked_serverHolds _ _ _).trans h.acked, fun he => ?_⟩
    have hrefusal := refusal_serverHolds s.pacer held now
    split_ifs at hrefusal
    · exact absurd (he.symm.trans (congrArg fst hrefusal)) h.document
    all_goals
      obtain ⟨hhash, huntil, -⟩ := of_refusal hrefusal
      exact (h.refused (hhash.symm.trans he)).trans_eq huntil.symm
  | refused other now =>
    exact ⟨h.document, hclock, h.acked, fun _ => Nat.add_le_add_right hclock _⟩
  | upload u =>
    obtain rfl := honly u rfl
    obtain ⟨other, asked, now, outcome⟩ := u
    cases outcome with
    | acknowledged answer => exact Sent.of_acknowledged hok rfl hclock
    | rejected => exact ⟨h.document, hclock, h.acked, h.refused⟩
    | refused => exact ⟨h.document, hclock, h.acked, fun _ => Nat.add_le_add_right hclock _⟩
  | _ => exact ⟨h.document, hclock, h.acked, h.refused⟩

/-- A step has passed since `t`, or the document waits for one, or it was confirmed. -/
def Settling (t : ℕ) (s : Paced) : Prop :=
  t + seconds 60 ≤ s.clock ∨ t + seconds 60 ≤ s.pacer.resendAt ∨ s.pacer.confirmed = true

/-- A step has passed since `t`, or the document waits for one that no confirmation lifts. -/
def Spaced (t : ℕ) (s : Paced) : Prop :=
  t + seconds 60 ≤ s.clock ∨ t + seconds 60 ≤ s.pacer.resendAt ∧ 0 < s.pacer.resends

theorem Settling.of_acknowledged (houtcome : u.outcome = .acknowledged answer) (ht : t ≤ u.now) :
    Settling t (s.next (.upload u)) := by
  rw [next_acknowledged houtcome]
  by_cases hanswer : answer = some u.hash
  · subst hanswer
    exact .inr (.inr (confirmed_acknowledged _ _ _))
  · refine .inr (.inl ?_)
    exact (Nat.add_le_add_right ht _).trans (le_resendAt_acknowledged hanswer)

theorem Settling.of_sending {s' : Paced} (h : Settling t s) (hclock : s.clock ≤ s'.clock)
    (hsending : s'.pacer.sending = s.pacer.sending) : Settling t s' := by
  obtain ⟨-, hconfirmed, -, hat⟩ := Pacer.of_sending hsending
  rw [Settling, hconfirmed, hat]
  exact h.imp_left fun hle => hle.trans hclock

theorem Settling.next (h : Settling t s) (hs : Sent hash t s) (hok : s.allowed e = true) :
    Settling t (s.next e) := by
  have hclock := clock_le_next hok
  rcases sending_next s e with ⟨held, now, rfl⟩ | ⟨u, answer, rfl, houtcome⟩ | hsame
  · have hsending := sending_serverHolds s.pacer held now
    split_ifs at hsending
    · exact .inr (.inr ((Pacer.of_sending hsending).2.1.trans (confirmed_confirm _ _)))
    · exact h.of_sending hclock hsending
  · exact Settling.of_acknowledged houtcome (hs.time.trans hclock)
  · exact h.of_sending hclock hsame

theorem Spaced.le_asked (h : Spaced t s) (hs : Sent u.hash t s)
    (hok : s.allowed (.upload u) = true) : t + seconds 60 ≤ u.asked := by
  obtain ⟨hclock, -, hdue⟩ := upload_allowed hok
  rcases h with hpassed | ⟨hwait, -⟩
  · exact hpassed.trans hclock
  · exact hwait.trans (hdue.notSent hs.acked.symm)

theorem Spaced.next (h : Spaced t s) (hs : Sent hash t s) (honly : e.Only hash)
    (hok : s.allowed e = true) : Spaced t (s.next e) := by
  have hclock := clock_le_next hok
  rcases sending_next s e with ⟨held, now, rfl⟩ | ⟨u, answer, rfl, houtcome⟩ | hsame
  · rcases h with hpassed | ⟨hwait, hresends⟩
    · exact .inl (hpassed.trans hclock)
    have hsending := sending_serverHolds s.pacer held now
    rcases le_or_gt s.pacer.resendAt now with hpassed | hlt
    · exact .inl (hwait.trans hpassed)
    · rw [sending_confirm_of_lt hresends hlt] at hsending
      refine .inr ?_
      split_ifs at hsending
      all_goals
        obtain ⟨-, -, hcount, hat⟩ := of_sending hsending
        exact ⟨hwait.trans_eq hat.symm, hresends.trans_eq hcount.symm⟩
  · obtain rfl := honly u rfl
    have hasked := h.le_asked hs hok
    exact .inl (hasked.trans (upload_allowed hok).2.1)
  · obtain ⟨-, -, hcount, hat⟩ := of_sending hsame
    rw [Spaced, hcount, hat]
    exact h.imp_left fun hle => hle.trans hclock

theorem Spaced.of_acknowledged (h : Settling t s) (hs : Sent u.hash t s)
    (hok : s.allowed (.upload u) = true) (houtcome : u.outcome = .acknowledged answer) :
    Spaced t (s.next (.upload u)) := by
  obtain ⟨hclock, hasked, hdue⟩ := upload_allowed hok
  rw [next_acknowledged houtcome]
  rcases h with hpassed | hwait | hconfirmed
  · exact .inl (hpassed.trans (hclock.trans hasked))
  · exact .inl ((hwait.trans (hdue.notSent hs.acked.symm)).trans hasked)
  · by_cases hrefused : s.pacer.refusedHash = u.hash
    · -- The document was refused since, so that a day has passed.
      have hday := (hs.refused hrefused).trans (hdue.notRefused hrefused.symm)
      have hstep : t + seconds 60 ≤ t + seconds (24 * 3600) := Nat.add_le_add_left (by decide) t
      exact .inl ((hstep.trans hday).trans hasked)
    · obtain ⟨hle, hpos⟩ := lost_acknowledged u.now answer hs.acked hconfirmed hrefused
      refine .inr ⟨le_trans ?_ hle, hpos⟩
      exact Nat.add_le_add_right (hs.time.trans (hclock.trans hasked)) _

theorem le_resendAt_next (h : t + seconds 60 ≤ s.pacer.resendAt) (hs : Sent hash t s)
    (honly : e.Only hash) (hconfirms : ¬ e.Confirms hash) (hok : s.allowed e = true) :
    t + seconds 60 ≤ (s.next e).pacer.resendAt := by
  rcases sending_next s e with ⟨held, now, rfl⟩ | ⟨u, answer, rfl, houtcome⟩ | hsame
  · have hsending := sending_serverHolds s.pacer held now
    rw [if_neg (fun hheld => hconfirms (hheld.2.trans hs.acked))] at hsending
    exact h.trans_eq (of_sending hsending).2.2.2.symm
  · obtain rfl := honly u rfl
    have hanswer : answer ≠ some u.hash := fun he => hconfirms ⟨rfl, he ▸ houtcome⟩
    have htime := hs.time.trans (clock_le_next hok)
    rw [next_acknowledged houtcome] at htime ⊢
    exact (Nat.add_le_add_right htime _).trans (le_resendAt_acknowledged hanswer)
  · exact h.trans_eq (of_sending hsame).2.2.2.symm

/-! ### Rejections -/

/-- The document was rejected at least `k` times since the last document that was not. -/
def Rejected (hash : String) (k : ℕ) (s : Paced) : Prop :=
  k = 0 ∨ s.pacer.rejectedHash = hash ∧ k ≤ s.pacer.rejections

theorem rejectedHash_next (he : e.isUpload = false) :
    (s.next e).pacer.rejectedHash = s.pacer.rejectedHash ∧
      (s.next e).pacer.rejections = s.pacer.rejections ∧
      (s.next e).pacer.retryAt = s.pacer.retryAt := by
  cases e with
  | serverHolds held now =>
    have hwaits := waits_serverHolds s.pacer held now
    exact ⟨congrArg fst hwaits, congrArg (fun x => x.2.1) hwaits,
      congrArg (fun x => x.2.2.1) hwaits⟩
  | hold now secs => exact ⟨rfl, rfl, rfl⟩
  | upload u => cases he
  | _ => exact ⟨rfl, rfl, rfl⟩

theorem next_rejected (houtcome : u.outcome = .rejected) :
    s.next (.upload u) = ⟨s.pacer.rejected u.hash u.now, u.now⟩ := by
  rw [next, report, houtcome]

theorem Rejected.le_rejections {k : ℕ} (h : Rejected u.hash k s) :
    k ≤ if u.hash ≠ s.pacer.rejectedHash then 0 else s.pacer.rejections := by
  rcases h with rfl | ⟨hhash, hle⟩
  · exact zero_le _
  · rw [if_neg (not_not.mpr hhash.symm)]
    exact hle

theorem Rejected.next (k : ℕ) (s : Paced) (e : Event) (honly : e.OnlyRejects hash)
    (h : Rejected hash k s) : Rejected hash (if e.isUpload then k + 1 else k) (s.next e) := by
  cases he : e.isUpload with
  | false =>
    obtain ⟨hhash, hcount, -⟩ := rejectedHash_next (s := s) he
    refine h.imp_right fun hrejected => ?_
    rw [hhash, hcount]
    exact hrejected
  | true =>
    cases e with
    | upload u =>
      obtain ⟨rfl, houtcome⟩ := honly u rfl
      rw [next_rejected houtcome]
      exact .inr ⟨rfl, succ_le_succ h.le_rejections⟩
    | _ => cases he

theorem retryAt_of_rejected {k : ℕ} (h : Rejected u.hash k s) (houtcome : u.outcome = .rejected) :
    (s.next (.upload u)).pacer.rejectedHash = u.hash ∧
      u.now + step k ≤ (s.next (.upload u)).pacer.retryAt := by
  rw [next_rejected houtcome]
  exact ⟨rfl, Nat.add_le_add_left (step_mono h.le_rejections) _⟩

/-! ### Holds -/

/-- A hold that was asked for has passed, or the pacer waits for its end. -/
def Holding (expiry : ℕ) (s : Paced) : Prop :=
  expiry ≤ s.clock ∨ expiry ≤ s.pacer.holdUntil

theorem Holding.of_hold (now secs : ℕ) :
    Holding (now + seconds secs) (s.next (.hold now secs)) := by
  rcases Nat.eq_zero_or_pos secs with rfl | hpos
  · have hnow : now + seconds 0 = now := by rw [seconds, zero_mul, add_zero]
    exact .inl hnow.le
  · refine .inr ?_
    simp only [next, hold, if_neg (ne_of_gt hpos)]
    exact le_max_right _ _

theorem Holding.next {expiry : ℕ} (h : Holding expiry s) (hok : s.allowed e = true) :
    Holding expiry (s.next e) := by
  refine h.imp (fun hle => hle.trans (clock_le_next hok)) fun hle => ?_
  cases e with
  | serverHolds held now =>
    exact hle.trans_eq
      (congrArg (fun x => x.2.2.2) (waits_serverHolds s.pacer held now)).symm
  | hold now secs =>
    simp only [Paced.next, hold]
    split_ifs
    · exact hle
    · exact hle.trans (le_max_left _ _)
  | upload u =>
    obtain ⟨other, asked, now, outcome⟩ := u
    cases outcome with
    | acknowledged answer => exact hle.trans_eq (holdUntil_acknowledged _ _ _ _).symm
    | _ => exact hle
  | _ => exact hle

end Paced

/-! ## What the server has said -/

/-- What the server is known to hold, and the last document that it was found to hash in its
own way, with its digest for it. -/
structure Heard where
  held : Option String := none
  hashedAs : Option (String × String) := none

/-- A header that repeats the document's hash confirms it; one that says that nothing is held,
or what was held before, is taken at its word; any other digest is the server's own for the
document it was sent, as is the one that it gave for the document before. -/
def Heard.acknowledged (x : Heard) (hash : String) : Option String → Heard
  | none => { x with held := some hash }
  | some digest =>
    if digest = hash then
      ⟨some hash, if x.hashedAs.map fst = some hash then none else x.hashedAs⟩
    else if x.hashedAs = some (hash, digest) then { x with held := some hash }
    else if digest = emptyFactsHash ∨ some digest = x.held then { x with held := some digest }
    else ⟨some hash, some (hash, digest)⟩

def Heard.after (x : Heard) : Event → Heard
  | .serverHolds hash _ => { x with held := some hash }
  | .serverSilent => { x with held := none }
  | .upload u =>
    match u.outcome with
    | .acknowledged answer => x.acknowledged u.hash answer
    | _ => x
  | _ => x

/-- What was heard of the server in a run. -/
def heard (es : List Event) : Heard :=
  es.foldl Heard.after {}

/-- The server has stated what it holds since it was last silent. -/
def Stated (es : List Event) : Prop :=
  ∃ before held now rest, es = before ++ Event.serverHolds held now :: rest ∧
    Event.serverSilent ∉ rest

namespace Pacer

/-- What the pacer remembers of the server's answers. -/
def told (p : Pacer) : Option String × String × String :=
  (p.server, p.mismatchHash, p.mismatchDigest)

section

variable (p hash now answer)

theorem told_serverHolds :
    (p.serverHolds hash now).told = (some hash, p.mismatchHash, p.mismatchDigest) := by
  rw [view_serverHolds p hash now told (fun _ => rfl) (fun _ _ => rfl), reported]
  simp only [confirm]
  split_ifs <;> rfl

theorem told_counted :
    (p.counted hash now).told = (some hash, p.mismatchHash, p.mismatchDigest) := by
  have hrelease : (p.clearRejections.release hash).told = p.told := by
    rw [release]
    split_ifs <;> rfl
  have hmismatch := congrArg snd hrelease
  refine Prod.ext rfl (Eq.trans ?_ hmismatch)
  simp only [counted, countAck]
  split_ifs <;> rfl

theorem told_acknowledged :
    (p.acknowledged hash now answer).1.told = if (p.answered hash now answer).2 then
        ((p.answered hash now answer).1.server, hash, answer.getD "")
      else (p.answered hash now answer).1.told := by
  rw [acknowledged_fst]
  cases hdiffers : (p.answered hash now answer).2 with
  | true =>
    have hverdict : p.verdict hash now answer = true := by
      change ((p.answered hash now answer).2 || _) = true
      rw [hdiffers, Bool.true_or]
    rw [if_pos hverdict, if_pos rfl]
    simp only [refuseMismatch, if_true]
    split_ifs <;> rfl
  | false =>
    simp only [refuseMismatch, Bool.false_eq_true, if_false]
    split_ifs <;> rfl

theorem told_confirm : (p.confirm now).told = p.told := by
  simp only [confirm]
  split_ifs <;> rfl

theorem told_acknowledged_some (digest : String) :
    (p.acknowledged hash now (some digest)).1.told = if digest = hash then
        (some hash, if hash = p.mismatchHash then ("", "") else (p.mismatchHash, p.mismatchDigest))
      else if hash = p.mismatchHash ∧ digest = p.mismatchDigest then (some hash, hash, digest)
      else if digest = emptyFactsHash ∨ some digest = p.server then
        (some digest, p.mismatchHash, p.mismatchDigest)
      else (some hash, hash, digest) := by
  have hcounted := told_counted p hash now
  have hserver : (p.counted hash now).server = some hash := congrArg fst hcounted
  have hhash : (p.counted hash now).mismatchHash = p.mismatchHash :=
    congrArg (fun y => y.2.1) hcounted
  have hdigest : (p.counted hash now).mismatchDigest = p.mismatchDigest :=
    congrArg (fun y => y.2.2) hcounted
  have hconfirm := (told_confirm (p.counted hash now) now).trans hcounted
  have hconfirmHash : ((p.counted hash now).confirm now).mismatchHash = p.mismatchHash :=
    congrArg (fun y => y.2.1) hconfirm
  rw [told_acknowledged]
  simp only [answered, readAnswer, hhash, hdigest, hconfirmHash, getD_some]
  by_cases hsame : digest = hash
  · simp only [if_pos hsame, Bool.false_eq_true, if_false]
    split_ifs
    · have hserver' : ((p.counted hash now).confirm now).server = some hash :=
        congrArg fst hconfirm
      exact Prod.ext hserver' rfl
    · exact hconfirm
  simp only [if_neg hsame]
  by_cases hknown : hash = p.mismatchHash ∧ digest = p.mismatchDigest
  · simp only [if_pos hknown, if_true]
    exact Prod.ext hserver rfl
  simp only [if_neg hknown]
  by_cases hold : digest = emptyFactsHash ∨ some digest = p.server
  · simp only [if_pos hold, Bool.false_eq_true, if_false]
    rfl
  · simp only [if_neg hold, if_true]
    exact Prod.ext hserver rfl

end

end Pacer

structure Heard.Agrees (x : Heard) (p : Pacer) : Prop where
  told : p.told = (x.held, x.hashedAs.getD ("", ""))
  document : ∀ y, x.hashedAs = some y → y.1 ≠ ""

namespace Heard

variable {x : Heard}

theorem Agrees.server (h : x.Agrees p) : p.server = x.held :=
  congrArg fst h.told

theorem Agrees.mismatch (h : x.Agrees p) :
    (p.mismatchHash, p.mismatchDigest) = x.hashedAs.getD ("", "") :=
  congrArg snd h.told

section

variable (h : x.Agrees p) (hne : hash ≠ "")
include h hne

theorem Agrees.eq_mismatchHash_iff :
    hash = p.mismatchHash ↔ x.hashedAs.map fst = some hash := by
  have hmismatch := congrArg fst h.mismatch
  cases hx : x.hashedAs with
  | none =>
    rw [hx] at hmismatch
    exact iff_of_false (fun he => hne (he.trans hmismatch)) (fun he => (by cases he))
  | some y =>
    rw [hx] at hmismatch
    rw [show p.mismatchHash = y.1 from hmismatch, map_some, some_inj, eq_comm]

theorem Agrees.eq_mismatch_iff {digest : String} :
    (hash = p.mismatchHash ∧ digest = p.mismatchDigest) ↔ x.hashedAs = some (hash, digest) := by
  have hmismatch := h.mismatch
  cases hx : x.hashedAs with
  | none =>
    rw [hx] at hmismatch
    refine iff_of_false (fun he => hne ?_) (fun he => (by cases he))
    exact he.1.trans (congrArg fst hmismatch)
  | some y =>
    rw [hx] at hmismatch
    rw [some_inj, ← show (p.mismatchHash, p.mismatchDigest) = y from hmismatch,
      Prod.mk.injEq, eq_comm, eq_comm (a := digest)]

theorem Agrees.acknowledged (now : ℕ) (answer : Option String) :
    (x.acknowledged hash answer).Agrees (p.acknowledged hash now answer).1 := by
  cases answer with
  | none =>
    refine ⟨((told_acknowledged p hash now none).trans ?_), h.document⟩
    exact (told_counted p hash now).trans (Prod.ext rfl h.mismatch)
  | some digest =>
    have htold := told_acknowledged_some p hash now digest
    rw [h.server] at htold
    simp only [h.eq_mismatch_iff hne] at htold
    simp only [h.eq_mismatchHash_iff hne] at htold
    simp only [Heard.acknowledged]
    split_ifs at htold ⊢
    · exact ⟨htold, fun y hy => (by cases hy)⟩
    · exact ⟨htold.trans (Prod.ext rfl h.mismatch), h.document⟩
    · rename_i hknown
      exact ⟨htold.trans (by rw [hknown]; rfl), h.document⟩
    · exact ⟨htold.trans (Prod.ext rfl h.mismatch), h.document⟩
    · exact ⟨htold, fun y hy => (some.inj hy) ▸ hne⟩

end

theorem Agrees.next {s : Paced} (h : x.Agrees s.pacer) {e : Event} (hok : s.allowed e = true) :
    (x.after e).Agrees (s.next e).pacer := by
  cases e with
  | serverHolds held now =>
    refine ⟨(told_serverHolds s.pacer held now).trans ?_, h.document⟩
    exact Prod.ext rfl h.mismatch
  | serverSilent => exact ⟨Prod.ext rfl h.mismatch, h.document⟩
  | upload u =>
    obtain ⟨hash, asked, now, outcome⟩ := u
    cases outcome with
    | acknowledged answer =>
      exact h.acknowledged (Paced.upload_allowed hok).2.2.document now answer
    | _ => exact ⟨h.told, h.document⟩
  | _ => exact ⟨h.told, h.document⟩

end Heard

/-! ## Runs -/

namespace Paced

variable {s : Paced} {es rest : List Event} {u : Upload}

theorem legal_append : s.Legal (es ++ rest) ↔ s.Legal es ∧ (s.run es).Legal rest :=
  Runs.guarded_append

theorem run_concat (s : Paced) (es : List Event) (e : Event) :
    s.run (es ++ [e]) = (s.run es).next e := by
  rw [run, foldl_append]
  rfl

theorem agrees_run (h : Legal {} es) : (heard es).Agrees (run {} es).pacer := by
  induction es using reverseRecOn with
  | nil => exact ⟨rfl, fun y hy => (by cases hy)⟩
  | append_singleton es e ih =>
    obtain ⟨hes, hok, -⟩ := legal_append.mp h
    rw [heard, run_concat, foldl_append]
    exact (ih hes).next hok

theorem stated_append {e : Event} (h : Stated es) (he : e ≠ .serverSilent) :
    Stated (es ++ [e]) := by
  obtain ⟨before, held, now, rest, rfl, hrest⟩ := h
  refine ⟨before, held, now, rest ++ [e], by simp, fun hmem => ?_⟩
  rcases mem_append.mp hmem with hmem | hmem
  · exact hrest hmem
  · exact he (mem_singleton.mp hmem).symm

theorem stated_of_server (h : Legal {} es) (hserver : (run {} es).pacer.server ≠ none) :
    Stated es := by
  induction es using reverseRecOn with
  | nil => exact absurd rfl hserver
  | append_singleton es e ih =>
    obtain ⟨hes, hok, -⟩ := legal_append.mp h
    rw [run_concat] at hserver
    cases e with
    | serverHolds held now => exact ⟨es, held, now, [], rfl, not_mem_nil⟩
    | serverSilent => exact absurd rfl hserver
    | upload u =>
      obtain ⟨held, hheld, -⟩ := (upload_allowed hok).2.2.miss
      have hes' := ih hes (by rw [hheld]; exact some_ne_none held)
      exact stated_append hes' (fun he => (by cases he))
    | _ => exact stated_append (ih hes hserver) (fun he => (by cases he))

theorem le_asked_of_hold {secs : ℕ} (h : s.Legal (es ++ .upload u :: rest))
    (hmem : Event.hold now secs ∈ es) : now + seconds secs ≤ u.asked := by
  obtain ⟨hes, hok, -⟩ := legal_append.mp h
  obtain ⟨before, later, rfl⟩ := append_of_mem hmem
  obtain ⟨-, hhold, hlater⟩ := legal_append.mp hes
  have hstate : Holding (now + seconds secs) (s.run (before ++ .hold now secs :: later)) := by
    rw [run, foldl_append, foldl_cons]
    exact invariant (p := fun _ => True) (fun _ _ _ hok h => h.next hok) hlater
      (fun _ _ => trivial) (Holding.of_hold now secs)
  obtain ⟨hclock, -, hdue⟩ := upload_allowed hok
  exact hstate.elim (fun hle => hle.trans hclock) fun hle => hle.trans hdue.notHeld

variable {m₁ m₂ m : List Event}

theorem le_asked_third {u₁ u₂ u₃ : Upload} {a₁ a₂ : Option String}
    (h : s.Legal (.upload u₁ :: m₁ ++ .upload u₂ :: m₂ ++ .upload u₃ :: rest))
    (h₁ : u₁.outcome = .acknowledged a₁) (h₂ : u₂.outcome = .acknowledged a₂)
    (hhash₂ : u₂.hash = u₁.hash) (hhash₃ : u₃.hash = u₁.hash) (hm₁ : ∀ e ∈ m₁, e.Only u₁.hash)
    (hm₂ : ∀ e ∈ m₂, e.Only u₁.hash) : u₁.now + seconds 60 ≤ u₃.asked := by
  obtain ⟨hpair, hthird, -⟩ := legal_append.mp h
  obtain ⟨⟨hfirst, hl₁⟩, hsecond, hl₂⟩ := legal_append.mp hpair
  have hstart : Sent u₁.hash u₁.now (s.next (.upload u₁)) ∧ Settling u₁.now (s.next (.upload u₁)) :=
    ⟨Sent.of_acknowledged hfirst h₁ le_rfl, Settling.of_acknowledged h₁ le_rfl⟩
  obtain ⟨hsent, hsettling⟩ := invariant
    (I := fun s => Sent u₁.hash u₁.now s ∧ Settling u₁.now s) (p := Event.Only u₁.hash)
    (fun _ _ he hok hs => ⟨hs.1.next he hok, hs.2.next hs.1 hok⟩) hl₁ hm₁ hstart
  have honly : Event.Only u₁.hash (.upload u₂) := by
    rintro u ⟨⟩
    exact hhash₂
  have hspaced := Spaced.of_acknowledged hsettling (hhash₂ ▸ hsent) hsecond h₂
  obtain ⟨hsent', hspaced'⟩ := invariant
    (I := fun s => Sent u₁.hash u₁.now s ∧ Spaced u₁.now s) (p := Event.Only u₁.hash)
    (fun _ _ he hok hs => ⟨hs.1.next he hok, hs.2.next hs.1 he hok⟩) hl₂ hm₂
    ⟨hsent.next honly hsecond, hspaced⟩
  rw [run, foldl_append] at hthird
  exact hspaced'.le_asked (hhash₃ ▸ hsent') hthird

theorem le_asked_second {u₁ u₂ : Upload} {a : Option String}
    (h : s.Legal (.upload u₁ :: m ++ .upload u₂ :: rest)) (h₁ : u₁.outcome = .acknowledged a)
    (ha : a ≠ some u₁.hash) (hhash : u₂.hash = u₁.hash) (hm : ∀ e ∈ m, e.Only u₁.hash)
    (hconfirms : ∀ e ∈ m, ¬ e.Confirms u₁.hash) : u₁.now + seconds 60 ≤ u₂.asked := by
  obtain ⟨⟨hfirst, hl⟩, hsecond, -⟩ := legal_append.mp h
  have hstart : u₁.now + seconds 60 ≤ (s.next (.upload u₁)).pacer.resendAt := by
    rw [next_acknowledged h₁]
    exact le_resendAt_acknowledged ha
  obtain ⟨hsent, hwait⟩ := invariant
    (I := fun s => Sent u₁.hash u₁.now s ∧ u₁.now + seconds 60 ≤ s.pacer.resendAt)
    (p := fun e => e.Only u₁.hash ∧ ¬ e.Confirms u₁.hash)
    (fun _ _ he hok hs => ⟨hs.1.next he.1 hok, le_resendAt_next hs.2 hs.1 he.1 he.2 hok⟩) hl
    (fun e he => ⟨hm e he, hconfirms e he⟩) ⟨Sent.of_acknowledged hfirst h₁ le_rfl, hstart⟩
  exact hwait.trans ((upload_allowed hsecond).2.2.notSent (hhash.trans hsent.acked.symm))

theorem le_asked_of_rejected {r : Upload}
    (h : s.Legal (m₁ ++ .upload r :: m₂ ++ .upload u :: rest)) (hr : r.outcome = .rejected)
    (hhash : u.hash = r.hash) (hm₁ : ∀ e ∈ m₁, e.OnlyRejects r.hash)
    (hm₂ : ∀ e ∈ m₂, e.isUpload = false) :
    r.now + seconds (min (60 * 2 ^ m₁.countP Event.isUpload) 3600) ≤ u.asked := by
  obtain ⟨hpair, hnext, -⟩ := legal_append.mp h
  obtain ⟨hl₁, -, hl₂⟩ := legal_append.mp hpair
  have hrejected : Rejected r.hash (0 + m₁.countP Event.isUpload) (s.run m₁) :=
    counted (fun k s e he _ hs => Rejected.next k s e he hs) hl₁ hm₁ (.inl rfl)
  rw [zero_add] at hrejected
  obtain ⟨hdocument, hwait⟩ := invariant
    (I := fun x => x.pacer.rejectedHash = r.hash ∧
      r.now + step (m₁.countP Event.isUpload) ≤ x.pacer.retryAt)
    (fun x e he _ hx => by rw [(rejectedHash_next he).1, (rejectedHash_next he).2.2]; exact hx) hl₂
    hm₂ (retryAt_of_rejected hrejected hr)
  rw [run, foldl_append] at hnext
  rw [← step_eq]
  exact hwait.trans ((upload_allowed hnext).2.2.notRejected (hhash.trans hdocument.symm))

/-- In every run in which uploads follow `shouldUpload`: nothing is uploaded before the server
has stated what it holds since it was last silent, nor what it holds, nor before a hold has
passed; three acknowledged uploads of a document span a minute, and so do two without a
confirmation in between; and a document that was rejected waits on the doubling steps. -/
theorem uploads_paced (es : List Event) (h : Legal {} es) :
    (∀ (pre : List Event) (u : Upload) (post : List Event), es = pre ++ .upload u :: post →
      Stated pre ∧ (heard pre).held ≠ some u.hash ∧
        ∀ now secs, .hold now secs ∈ pre → now + seconds secs ≤ u.asked) ∧
    (∀ (pre m₁ m₂ post : List Event) (u₁ u₂ u₃ : Upload) (a₁ a₂ a₃ : Option String),
      es = pre ++ (.upload u₁ :: m₁ ++ .upload u₂ :: m₂ ++ .upload u₃ :: post) →
      u₁.outcome = .acknowledged a₁ → u₂.outcome = .acknowledged a₂ →
      u₃.outcome = .acknowledged a₃ → u₂.hash = u₁.hash → u₃.hash = u₁.hash →
      (∀ e ∈ m₁ ++ m₂, e.Only u₁.hash) → u₁.now + seconds 60 ≤ u₃.asked) ∧
    (∀ (pre m post : List Event) (u₁ u₂ : Upload) (a₁ a₂ : Option String),
      es = pre ++ (.upload u₁ :: m ++ .upload u₂ :: post) →
      u₁.outcome = .acknowledged a₁ → u₂.outcome = .acknowledged a₂ → u₂.hash = u₁.hash →
      (∀ e ∈ m, e.Only u₁.hash) → (∀ e ∈ Event.upload u₁ :: m, ¬ e.Confirms u₁.hash) →
      u₁.now + seconds 60 ≤ u₂.asked) ∧
    ∀ (pre m₁ m₂ post : List Event) (r u : Upload) (k : ℕ),
      es = pre ++ (m₁ ++ .upload r :: m₂ ++ .upload u :: post) →
      r.outcome = .rejected → u.outcome = .rejected → u.hash = r.hash →
      (∀ e ∈ m₁, e.OnlyRejects r.hash) → (∀ e ∈ m₂, e.isUpload = false) →
      k = (m₁ ++ [Event.upload r]).countP Event.isUpload →
      r.now + seconds (min (60 * 2 ^ (k - 1)) 3600) ≤ u.asked := by
  refine ⟨?_, ?_, ?_, ?_⟩
  · rintro pre u post rfl
    obtain ⟨hpre, hok, -⟩ := legal_append.mp h
    obtain ⟨held, hserver, hne⟩ := (upload_allowed hok).2.2.miss
    refine ⟨stated_of_server hpre (by rw [hserver]; exact some_ne_none held), ?_, ?_⟩
    · rw [← (agrees_run hpre).server, hserver]
      exact fun he => hne (some.inj he).symm
    · exact fun now secs hmem => le_asked_of_hold h hmem
  · rintro pre m₁ m₂ post u₁ u₂ u₃ a₁ a₂ a₃ rfl h₁ h₂ - hhash₂ hhash₃ hm
    obtain ⟨hm₁, hm₂⟩ := forall_mem_append.mp hm
    exact le_asked_third (legal_append.mp h).2 h₁ h₂ hhash₂ hhash₃ hm₁ hm₂
  · rintro pre m post u₁ u₂ a₁ a₂ rfl h₁ - hhash hm hconfirms
    obtain ⟨hfirst, hrest⟩ := forall_mem_cons.mp hconfirms
    have ha : a₁ ≠ some u₁.hash := fun he => hfirst ⟨rfl, he ▸ h₁⟩
    exact le_asked_second (legal_append.mp h).2 h₁ ha hhash hm hrest
  · rintro pre m₁ m₂ post r u k rfl hr - hhash hm₁ hm₂ rfl
    have hcount : (m₁ ++ [Event.upload r]).countP Event.isUpload - 1 =
        m₁.countP Event.isUpload := by
      rw [countP_append, countP_singleton]
      rfl
    rw [hcount]
    exact le_asked_of_rejected (legal_append.mp h).2 hr hhash hm₁ hm₂

def retried : List Event :=
  [.serverHolds "old" 0, .upload ⟨"new", 1, 2, .rejected⟩, .hold 2 30, .beginTurn,
    .upload ⟨"new", seconds 61, seconds 62, .rejected⟩, .serverHolds "old" (seconds 63),
    .upload ⟨"new", seconds 182, seconds 183, .acknowledged none⟩]

theorem uploads_paced_retried :
    Legal {} retried ∧ Stated (retried.take 6) ∧ (heard (retried.take 6)).held ≠ some "new" ∧
      2 + seconds 30 ≤ seconds 182 := by
  have hlegal : Legal {} retried := by decide
  obtain ⟨hstated, hheld, hhold⟩ := (uploads_paced retried hlegal).1 (retried.take 6) _ [] rfl
  exact ⟨hlegal, hstated, hheld, hhold 2 30 (by decide)⟩

end Paced

end Nscp.Onboarding
