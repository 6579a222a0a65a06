import Nscp.Smtp.Send

/-!
# Traces of a submission

The log of a connection holds writes, the handshake and reads.  Bytes are taken out of the buffer
in the order they were received, and at the handshake nothing is left of what came before it.
`At` is the state of a dialogue between two operations, `Stops` that of one that was broken off:
its acts are those of one of the scripts, cut off somewhere.
-/

namespace Nscp.Smtp

open List DotText Hoare

/-! ## Projections of the log -/

def Event.isReading : Event → Bool
  | .received _ => true
  | .took _ => true
  | _ => false

def Event.sent : Event → List Char
  | .wrote _ bytes => bytes
  | .broke _ bytes => bytes
  | _ => []

def Event.receivedBytes : Event → List Char
  | .received bytes => bytes
  | _ => []

def Event.takenLine? : Event → Option (List Char)
  | .took line => some line
  | _ => none

section

variable (log : List Event)

def sent : List Char := log.flatMap Event.sent

def completed : List (List Char) :=
  log.filterMap fun
    | .wrote _ bytes => some bytes
    | _ => none

def received : List Char := log.flatMap Event.receivedBytes

def takenLines : List (List Char) := log.filterMap Event.takenLine?

def taken : List Char := (takenLines log).flatMap (· ++ ['\n'])

def acts : List Event := log.filter fun e => !e.isReading

end

variable (xs ys : List Event)

@[simp] theorem sent_append : sent (xs ++ ys) = sent xs ++ sent ys :=
  flatMap_append

@[simp] theorem completed_append : completed (xs ++ ys) = completed xs ++ completed ys :=
  filterMap_append

@[simp] theorem received_append : received (xs ++ ys) = received xs ++ received ys :=
  flatMap_append

@[simp] theorem takenLines_append : takenLines (xs ++ ys) = takenLines xs ++ takenLines ys :=
  filterMap_append

@[simp] theorem taken_append : taken (xs ++ ys) = taken xs ++ taken ys := by
  rw [taken, takenLines_append, flatMap_append, taken, taken]

@[simp] theorem acts_append : acts (xs ++ ys) = acts xs ++ acts ys :=
  filter_append ..

theorem sent_acts (log : List Event) : sent (acts log) = sent log := by
  induction log with
  | nil => rfl
  | cons e log ih =>
    cases e with
    | received bytes | took line | handshake => exact ih
    | wrote channel bytes | broke channel bytes => exact congrArg (bytes ++ ·) ih

theorem completed_acts (log : List Event) : completed (acts log) = completed log := by
  induction log with
  | nil => rfl
  | cons e log ih =>
    cases e with
    | received bytes | took line | broke channel bytes | handshake => exact ih
    | wrote channel bytes => exact congrArg (bytes :: ·) ih

/-! ## Reads -/

/-- The connection has been read from only, and the buffer accounts for every byte. -/
structure Reads (w w' : Wire) (mid : List Event) : Prop where
  log : w'.log = w.log ++ mid
  reading : ∀ e ∈ mid, e.isReading = true
  channel : w'.channel = w.channel
  buffer : w.buffer ++ received mid = taken mid ++ w'.buffer

variable (w : Wire)

theorem Reads.refl : Reads w w [] :=
  ⟨(append_nil _).symm, forall_mem_nil _, rfl, append_nil _⟩

theorem Reads.trans {w w' w'' : Wire} {mid mid' : List Event} (h : Reads w w' mid)
    (h' : Reads w' w'' mid') : Reads w w'' (mid ++ mid') where
  log := by rw [h'.log, h.log, append_assoc]
  reading := by
    intro e he
    rcases mem_append.mp he with he | he
    · exact h.reading e he
    · exact h'.reading e he
  channel := h'.channel.trans h.channel
  buffer := by
    rw [received_append, taken_append, ← append_assoc, h.buffer, append_assoc, h'.buffer,
      append_assoc]

variable {mid : List Event}

theorem acts_eq_nil (h : ∀ e ∈ mid, e.isReading = true) : acts mid = [] := by
  apply filter_eq_nil_iff.mpr
  intro e he
  simp [h e he]

theorem fill_received (buffer : List Char) (arrivals : List Arrival) :
    (∀ e ∈ (fill buffer arrivals).received, ∃ bytes, e = .received bytes) ∧
      buffer ++ received (fill buffer arrivals).received = (fill buffer arrivals).buffer := by
  induction arrivals generalizing buffer with
  | nil =>
    rw [fill]
    split_ifs <;> exact ⟨forall_mem_nil _, append_nil _⟩
  | cons arrival rest ih =>
    rw [fill.eq_def]
    split_ifs
    · exact ⟨forall_mem_nil _, append_nil _⟩
    · exact ⟨forall_mem_nil _, append_nil _⟩
    · cases arrival with
      | failed failure => exact ⟨forall_mem_nil _, append_nil _⟩
      | bytes chunk =>
        dsimp only
        split_ifs
        · obtain ⟨hall, hbuffer⟩ := ih (buffer ++ chunk)
          refine ⟨forall_mem_cons.mpr ⟨⟨chunk, rfl⟩, hall⟩, ?_⟩
          rw [← hbuffer, append_assoc]
          rfl
        all_goals
          refine ⟨forall_mem_singleton.mpr ⟨_, rfl⟩, ?_⟩
          exact congrArg (buffer ++ ·) (append_nil _)

theorem crlf_infix_of_fill {buffer : List Char} {arrivals : List Arrival}
    (h : (fill buffer arrivals).result = .line) : crlf <:+: (fill buffer arrivals).buffer := by
  induction arrivals generalizing buffer with
  | nil =>
    rw [fill] at h ⊢
    split_ifs at h ⊢ with hline
    exact hline
  | cons arrival rest ih =>
    rw [fill.eq_def] at h ⊢
    split_ifs at h ⊢ with hline
    · exact hline
    · cases arrival with
      | failed failure => cases h
      | bytes chunk =>
        dsimp only at h ⊢
        split_ifs at h ⊢ with hroom hfound
        · exact ih h
        · exact hfound

theorem Wire.reads_filled : Reads w w.filled (fill w.buffer w.network.arrivals).received := by
  obtain ⟨hall, hbuffer⟩ := fill_received w.buffer w.network.arrivals
  have hlines : takenLines (fill w.buffer w.network.arrivals).received = [] := by
    apply filterMap_eq_nil_iff.mpr
    intro e he
    obtain ⟨bytes, rfl⟩ := hall e he
    rfl
  refine ⟨rfl, ?_, rfl, ?_⟩
  · intro e he
    obtain ⟨bytes, rfl⟩ := hall e he
    rfl
  · rw [taken, hlines, hbuffer]
    rfl

theorem Wire.reads_lineTaken {w : Wire} (h : '\n' ∈ w.buffer) :
    Reads w w.lineTaken [.took (firstLine w.buffer)] := by
  refine ⟨rfl, forall_mem_singleton.mpr rfl, rfl, ?_⟩
  obtain ⟨s, t, hst, hs⟩ := eq_append_cons_of_mem h
  have hline : firstLine w.buffer = s := by
    rw [hst, firstLine, Text.takeWhile_append_cons hs]
  have hrest : w.lineTaken.buffer = t := by
    rw [Wire.lineTaken, hline, hst]
    exact Text.drop_append_cons _ s t
  change w.buffer ++ [] = taken [.took (firstLine w.buffer)] ++ w.lineTaken.buffer
  rw [hrest, hline, hst, append_nil, append_cons]
  exact congrArg (· ++ t) (append_nil (s ++ ['\n'])).symm

theorem readLine_spec :
    Triple (· = w) readLine
      (fun line w' => ∃ mid raw, Reads w w' mid ∧ takenLines mid = [raw] ∧ line = stripCr raw)
      fun w' => ∃ mid, Reads w w' mid := by
  rintro w rfl
  rw [readLine]
  cases hresult : (fill w.buffer w.network.arrivals).result with
  | tooLong | failed failure => exact ⟨_, w.reads_filled⟩
  | line =>
    have hmem : '\n' ∈ w.filled.buffer :=
      (crlf_infix_of_fill hresult).subset (by decide)
    refine ⟨_, firstLine w.filled.buffer, w.reads_filled.trans (Wire.reads_lineTaken hmem), ?_, rfl⟩
    have hlines : takenLines (fill w.buffer w.network.arrivals).received = [] := by
      apply filterMap_eq_nil_iff.mpr
      intro e he
      obtain ⟨bytes, rfl⟩ := (fill_received w.buffer w.network.arrivals).1 e he
      rfl
    rw [takenLines_append, hlines]
    rfl

/-- The text of a reply whose lines were taken out of the buffer. -/
def replyText (mid : List Event) : List Char :=
  ['\n'].intercalate ((takenLines mid).map stripCr)

theorem readReplyLines_spec (n : ℕ) (out : List Char) (w : Wire) :
    Triple (· = w) (readReplyLines n out)
      (fun reply w' => ∃ mid, Reads w w' mid ∧ takenLines mid ≠ [] ∧
        reply = (if out = [] then [] else out ++ ['\n']) ++ replyText mid)
      fun w' => ∃ mid, Reads w w' mid := by
  induction n generalizing out w with
  | zero =>
    apply Triple.refuse
    rintro _ rfl
    exact ⟨[], Reads.refl _⟩
  | succ n ih =>
    rw [readReplyLines]
    refine Triple.bind (readLine_spec w) fun line => ?_
    refine Triple.of_forall fun w₁ hw₁ => ?_
    obtain ⟨mid, raw, hreads, hraw, rfl⟩ := hw₁
    have hstop : ∀ s, s = w₁ → ∃ mid, Reads w s mid := by
      rintro _ rfl
      exact ⟨mid, hreads⟩
    refine Triple.refuseIf_bind hstop fun hlength => ?_
    apply Triple.ite
    · intro hlast
      apply Triple.pure
      rintro _ rfl
      refine ⟨mid, hreads, by simp [hraw], ?_⟩
      rw [replyText, hraw, map_singleton, intercalate_singleton]
    · intro hmore
      refine Triple.refuseIf_bind hstop fun hdash => ?_
      refine (ih _ w₁).mono (fun _ h => h) ?_ ?_
      · rintro reply w' ⟨mid', hreads', hlines', rfl⟩
        refine ⟨mid ++ mid', hreads.trans hreads', by simp [hraw], ?_⟩
        -- a line that was not refused is not empty, so the next one is set off from it
        have hne : (if out = [] then [] else out ++ ['\n']) ++ stripCr raw ≠ [] := by
          intro hnil
          rw [(append_eq_nil_iff.mp hnil).2] at hlength
          exact hlength (by decide)
        obtain ⟨l, ls, hls⟩ := exists_cons_of_ne_nil hlines'
        rw [if_neg hne, replyText, replyText, takenLines_append, hraw, hls, singleton_append]
        simp
      · rintro w' ⟨mid', hreads'⟩
        exact ⟨mid ++ mid', hreads.trans hreads'⟩

theorem readReply_spec :
    Triple (· = w) readReply
      (fun reply w' => ∃ mid, Reads w w' mid ∧ reply = replyText mid)
      fun w' => ∃ mid, Reads w w' mid := by
  refine (readReplyLines_spec maxReplyLines [] w).mono (fun _ h => h) ?_ fun _ h => h
  rintro reply w' ⟨mid, hreads, -, hreply⟩
  exact ⟨mid, hreads, hreply⟩

/-! ## States of a dialogue -/

/-- Bytes leave the buffer in the order they came, and none is left at the handshake. -/
structure Sound (w : Wire) : Prop where
  buffered : received w.log = taken w.log ++ w.buffer
  drained : ∀ pre post, w.log = pre ++ .handshake :: post → received pre = taken pre

/-- Between two operations: the acts so far and the channel the next one uses. -/
structure At (channel : Channel) (done : List Event) (w : Wire) : Prop where
  acts : acts w.log = done
  channel : w.channel = channel
  sound : Sound w

/-- The acts of a script, cut off between two of them or in the middle of a write. -/
def CutOff (script as : List Event) : Prop :=
  as <+: script ∨ ∃ done channel part bytes, as = done ++ [.broke channel part] ∧
    done ++ [.wrote channel bytes] <+: script ∧ part <+: bytes

theorem CutOff.sent_prefix {script as : List Event} (h : CutOff script as) :
    completed as <+: completed script ∧ sent as <+: sent script := by
  rcases h with hfirst | ⟨done, channel, part, bytes, rfl, ⟨rest, rfl⟩, hpart⟩
  · obtain ⟨rest, rfl⟩ := hfirst
    rw [completed_append, sent_append]
    exact ⟨prefix_append _ _, prefix_append _ _⟩
  · obtain ⟨more, rfl⟩ := hpart
    simp only [completed_append, sent_append, append_assoc]
    refine ⟨(prefix_append_right_inj _).mpr nil_prefix, (prefix_append_right_inj _).mpr ?_⟩
    change part ++ [] <+: part ++ more ++ [] ++ sent rest
    rw [append_nil, append_assoc, append_assoc]
    exact prefix_append _ _

/-- A dialogue that was broken off while it followed one of the scripts. -/
def Stops (scripts : Set (List Event)) (w : Wire) : Prop :=
  Sound w ∧ ∃ script ∈ scripts, CutOff script (acts w.log)

/-- One of the scripts starts with these acts. -/
def Leads (scripts : Set (List Event)) (done : List Event) : Prop :=
  ∃ script ∈ scripts, done <+: script

variable {scripts : Set (List Event)} {channel : Channel} {done more log : List Event} {e : Event}

theorem Leads.of_append (h : Leads scripts (done ++ more)) : Leads scripts done := by
  obtain ⟨script, hscript, hlead⟩ := h
  exact ⟨script, hscript, (prefix_append done more).trans hlead⟩

theorem At.stops {w : Wire} (h : At channel done w) (hlead : Leads scripts done) :
    Stops scripts w := by
  obtain ⟨script, hscript, hfirst⟩ := hlead
  refine ⟨h.sound, script, hscript, Or.inl ?_⟩
  rw [h.acts]
  exact hfirst

section

variable (h : ∀ pre post, log = pre ++ .handshake :: post → received pre = taken pre)
include h

theorem drained_concat (he : e = .handshake → received log = taken log) :
    ∀ pre post, log ++ [e] = pre ++ .handshake :: post → received pre = taken pre := by
  intro pre post heq
  rcases eq_nil_or_concat post with rfl | ⟨post, x, rfl⟩
  · obtain ⟨rfl, hlast⟩ := append_inj' heq rfl
    exact he (List.cons.inj hlast).1
  · rw [concat_eq_append, ← cons_append, ← append_assoc] at heq
    exact h pre post (append_inj' heq rfl).1

theorem drained_append (hmore : ∀ e ∈ more, e ≠ .handshake) :
    ∀ pre post, log ++ more = pre ++ .handshake :: post → received pre = taken pre := by
  induction more using List.reverseRecOn with
  | nil => rwa [append_nil]
  | append_singleton more e ih =>
    rw [← append_assoc]
    apply drained_concat (ih fun x hx => hmore x (mem_append_left _ hx))
    intro heq
    exact absurd heq (hmore e (mem_append_right _ mem_cons_self))

end

theorem At.reads {w w' : Wire} (h : At channel done w) (hreads : Reads w w' mid) :
    At channel done w' := by
  refine ⟨?_, hreads.channel.trans h.channel, ?_, ?_⟩
  · rw [hreads.log, acts_append, acts_eq_nil hreads.reading, append_nil, h.acts]
  · rw [hreads.log, received_append, taken_append, h.sound.buffered, append_assoc,
      hreads.buffer, append_assoc]
  · rw [hreads.log]
    apply drained_append h.sound.drained
    rintro e he rfl
    cases hreads.reading _ he

/-! ## Operations -/

theorem Sound.act {w w' : Wire} (h : Sound w) (hlog : w'.log = w.log ++ [e])
    (hbuffer : w'.buffer = w.buffer) (he : e.isReading = false)
    (hdrained : e = .handshake → w.buffer = []) : Sound w' := by
  have hquiet : received [e] = [] ∧ taken [e] = [] := by
    cases e with
    | received bytes => cases he
    | took line => cases he
    | wrote channel bytes | broke channel bytes | handshake => exact ⟨rfl, rfl⟩
  refine ⟨?_, ?_⟩
  · rw [hlog, hbuffer, received_append, taken_append, hquiet.1, hquiet.2, append_nil,
      append_nil, h.buffered]
  · rw [hlog]
    apply drained_concat h.drained
    intro heq
    rw [h.buffered, hdrained heq, append_nil]

theorem write_spec {bytes : List Char} (hlead : Leads scripts (done ++ [.wrote channel bytes])) :
    Triple (At channel done) (write bytes)
      (fun _ => At channel (done ++ [.wrote channel bytes])) (Stops scripts) := by
  rintro w ⟨rfl, rfl, hsound⟩
  obtain ⟨script, hscript, hfirst⟩ := hlead
  -- the two ways to break off differ in what has been put on the wire only
  have hbroke : ∀ {w' : Wire} {part : List Char}, part <+: bytes →
      w'.log = w.log ++ [.broke w.channel part] → w'.buffer = w.buffer → Stops scripts w' := by
    intro w' part hpart hlog hbuffer
    refine ⟨hsound.act hlog hbuffer rfl (by rintro ⟨⟩), script, hscript, Or.inr ?_⟩
    refine ⟨acts w.log, w.channel, part, bytes, ?_, hfirst, hpart⟩
    rw [hlog, acts_append]
    rfl
  rw [write]
  cases w.network.writes with
  | nil => exact hbroke nil_prefix rfl rfl
  | cons outcome rest =>
    cases outcome with
    | failed sent failure => exact hbroke (List.take_prefix sent bytes) rfl rfl
    | done =>
      refine ⟨?_, rfl, hsound.act rfl rfl rfl (by rintro ⟨⟩)⟩
      exact acts_append w.log _

theorem write_log (bytes : List Char) (w : Wire) :
    Triple (· = w) (write bytes) (fun _ w' => w'.log = w.log ++ [.wrote w.channel bytes])
      fun w' => w.log <+: w'.log := by
  rintro w rfl
  rw [write]
  cases w.network.writes with
  | nil => exact prefix_append w.log _
  | cons outcome rest =>
    cases outcome with
    | failed sent failure => exact prefix_append w.log _
    | done => exact rfl

theorem readReply_at (hlead : Leads scripts done) :
    Triple (At channel done) readReply (fun _ => At channel done) (Stops scripts) := by
  apply Triple.of_forall
  intro w hw
  refine (readReply_spec w).mono (fun _ h => h) ?_ ?_
  · rintro reply w' ⟨mid, hreads, -⟩
    exact hw.reads hreads
  · rintro w' ⟨mid, hreads⟩
    exact (hw.reads hreads).stops hlead

theorem handshake_spec {what : List Char} (hlead : Leads scripts done) :
    Triple (At channel done) (handshake what)
      (fun _ => At .tls (done ++ [.handshake])) (Stops scripts) := by
  intro w hw
  rw [handshake]
  by_cases hbuffer : w.buffer = []
  · rw [if_neg (not_not_intro hbuffer)]
    cases w.network.handshake with
    | some failure => exact hw.stops hlead
    | none =>
      refine ⟨?_, rfl, hw.sound.act rfl rfl rfl fun _ => hbuffer⟩
      rw [acts_append, hw.acts]
      rfl
  · rw [if_pos hbuffer]
    exact hw.stops hlead

theorem refuseIf_spec {c : Prop} [Decidable c] {e : List Char} (hlead : Leads scripts done) :
    Triple (At channel done) (refuseIf c e) (fun _ => At channel done) (Stops scripts) :=
  (Triple.refuseIf fun _ _ hw => hw.stops hlead).mono (fun _ h => h) (fun _ _ h => h.1) fun _ h => h

end Nscp.Smtp
