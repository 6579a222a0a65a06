import Nscp.Service.Query

/-!
# What a query hands to plugins and what it answers

A batch falls into the commands that are accepted, denied and unknown, and the three are
collected independently (`foldl_sortPayload`).  The accepted ones are grouped by plugin, so
a batch hands on nothing that was not allowed; a header command takes its payloads along
unchecked.  Unknown commands are answered only when nothing was handed on.
-/

namespace Nscp.Service

open Plugins Permissions Manager Commands List
open Permissions (makeObject)

namespace Manager

variable (m : Manager) (subject : List Char)

def requested (payload : List Request) : List (List Char) :=
  payload.map fun q => makeKey q.command

def accept (q : Request) : Option (Plugin × Request) :=
  (m.commands.get (makeKey q.command)).bind fun plugin =>
    if m.allows subject plugin (makeKey q.command) then
      some (plugin, { q with command := makeKey q.command })
    else none

section

variable (payload : List Request)

def accepted : List (Plugin × Request) :=
  payload.filterMap (m.accept subject)

def denied : List (List Char) :=
  (requested payload).filter fun c => (m.commands.get c).any fun p => !m.allows subject p c

def missing : List (List Char) :=
  (requested payload).filter fun c => (m.commands.get c).isNone

end

/-! ## The three classes of a batch -/

variable {m subject}

theorem foldl_sortPayload (header : Header) (payload : List Request) (b : Batch) :
    payload.foldl (m.sortPayload header subject) b =
      { response := (m.denied subject payload).foldl (emitDeniedPayload subject) b.response
        chunks := (m.accepted subject payload).foldl (addToChunk header) b.chunks
        missingCommands :=
          (m.missing payload).foldl (fun lst c => appendList lst c ", ".toList) b.missingCommands
        missingList := b.missingList ++ m.missing payload } := by
  induction payload generalizing b with
  | nil => simp [denied, accepted, missing, requested]
  | cons q payload ih =>
    rw [foldl_cons, ih]
    simp only [sortPayload, denied, accepted, missing, requested, map_cons,
      filterMap_cons, filter_cons, accept]
    cases m.commands.get (makeKey q.command) with
    | none => simp
    | some plugin =>
      cases hallowed : m.allows subject plugin (makeKey q.command) with
      | false | true => simp [hallowed]

theorem mem_accepted {payload : List Request} {x : Plugin × Request} :
    x ∈ m.accepted subject payload ↔ ∃ q ∈ payload, m.commands.get (makeKey q.command) = some x.1 ∧
      m.allows subject x.1 (makeKey q.command) = true ∧
      x.2 = { q with command := makeKey q.command } := by
  rw [accepted, mem_filterMap]
  refine exists_congr fun q => and_congr_right fun _ => ?_
  rw [accept, Option.bind_eq_some_iff]
  constructor
  · rintro ⟨p, hp, hx⟩
    split at hx
    next hallowed =>
      cases hx
      exact ⟨hp, hallowed, rfl⟩
    next => cases hx
  · rintro ⟨hp, hallowed, hx⟩
    refine ⟨x.1, hp, ?_⟩
    rw [if_pos hallowed, ← hx]

end Manager

/-! ## Denials -/

variable (subject : List Char) (commands : List (List Char)) (r : QueryResponse)

theorem foldl_emitDeniedPayload_payload : (commands.foldl (emitDeniedPayload subject) r).payload =
      r.payload ++ commands.map (deniedPayload · subject) := by
  induction commands generalizing r with
  | nil => simp
  | cons c commands ih => rw [foldl_cons, ih]; simp [emitDeniedPayload]

theorem markers_emitDeniedPayload (c : List Char) :
    markers (emitDeniedPayload subject r c).header = markers r.header ++ [c] := by
  simp [markers, emitDeniedPayload]

theorem markers_foldl_emitDeniedPayload :
    markers (commands.foldl (emitDeniedPayload subject) r).header =
      markers r.header ++ commands := by
  induction commands generalizing r with
  | nil => simp
  | cons c commands ih => rw [foldl_cons, ih, markers_emitDeniedPayload]; simp

theorem isSome_header_foldl {commands : List (List Char)} (hne : commands ≠ [])
    (r : QueryResponse) : (commands.foldl (emitDeniedPayload subject) r).header.isSome = true := by
  induction commands generalizing r with
  | nil => exact absurd rfl hne
  | cons c commands ih =>
    rw [foldl_cons]
    by_cases hcommands : commands = []
    · rw [hcommands]
      rfl
    · exact ih hcommands _

/-! ## Chunks -/

structure Grouped (header : Header) (xs : List (Plugin × Request)) (cs : List Chunk) : Prop where
  header : ∀ c ∈ cs, c.request.header = header
  source : ∀ c ∈ cs, ∃ q, (c.plugin, q) ∈ xs
  sound : ∀ c ∈ cs, ∀ q ∈ c.request.payload, ∃ p, (p, q) ∈ xs ∧ p.id = c.plugin.id
  complete : ∀ x ∈ xs, ∃ c ∈ cs, c.plugin.id = x.1.id ∧ x.2 ∈ c.request.payload

theorem Grouped.nil (header : Header) : Grouped header [] [] :=
  ⟨by simp, by simp, by simp, by simp⟩

variable {cs : List Chunk} {header : Header} {c : Chunk}

theorem addToChunk_cases (header : Header) (cs : List Chunk) (x : Plugin × Request) :
    addToChunk header cs x = cs ++ [⟨x.1, ⟨header, [x.2]⟩⟩] ∨
      ∃ a c b, cs = a ++ c :: b ∧ c.plugin.id = x.1.id ∧ addToChunk header cs x =
        a ++ ⟨c.plugin, ⟨c.request.header, c.request.payload ++ [x.2]⟩⟩ :: b := by
  induction cs with
  | nil => exact .inl rfl
  | cons c₀ cs ih =>
    rw [addToChunk]
    split
    next hid => exact .inr ⟨[], c₀, cs, rfl, hid, rfl⟩
    next =>
      rcases ih with hadd | ⟨a, c, b, rfl, hid, hadd⟩
      · exact .inl (congrArg (c₀ :: ·) hadd)
      · exact .inr ⟨c₀ :: a, c, b, rfl, hid, congrArg (c₀ :: ·) hadd⟩

variable {xs : List (Plugin × Request)}

theorem Grouped.addToChunk (h : Grouped header xs cs) (x : Plugin × Request) :
    Grouped header (xs ++ [x]) (Service.addToChunk header cs x) := by
  have hx : x ∈ xs ++ [x] := mem_append_right _ (mem_singleton_self x)
  have hsource : ∀ c ∈ cs, ∃ q, (c.plugin, q) ∈ xs ++ [x] := fun c hc =>
    (h.source c hc).imp fun q hq => mem_append_left _ hq
  have hsound : ∀ c ∈ cs, ∀ q ∈ c.request.payload, ∃ p, (p, q) ∈ xs ++ [x] ∧ p.id = c.plugin.id :=
    fun c hc q hq => (h.sound c hc q hq).imp fun p hp => ⟨mem_append_left _ hp.1, hp.2⟩
  rcases addToChunk_cases header cs x with hadd | ⟨a, c, b, rfl, hid, hadd⟩
  · rw [hadd]
    refine ⟨?_, ?_, ?_, ?_⟩ <;> rw [forall_mem_append, forall_mem_singleton]
    · exact ⟨h.header, rfl⟩
    · exact ⟨hsource, x.2, hx⟩
    · exact ⟨hsound, forall_mem_singleton.mpr ⟨x.1, hx, rfl⟩⟩
    · refine ⟨fun y hy => ?_, _, mem_append_right _ mem_cons_self, rfl, mem_cons_self⟩
      obtain ⟨c, hc, hy⟩ := h.complete y hy
      exact ⟨c, mem_append_left _ hc, hy⟩
  · have hheader := h.header
    rw [forall_mem_append, forall_mem_cons] at hheader hsource hsound
    rw [hadd]
    refine ⟨?_, ?_, ?_, ?_⟩ <;> rw [forall_mem_append]
    · exact ⟨hheader.1, forall_mem_cons.mpr hheader.2⟩
    · exact ⟨hsource.1, forall_mem_cons.mpr hsource.2⟩
    · refine ⟨hsound.1, forall_mem_cons.mpr ⟨forall_mem_append.mpr ⟨hsound.2.1, ?_⟩, hsound.2.2⟩⟩
      exact forall_mem_singleton.mpr ⟨x.1, hx, hid.symm⟩
    · refine ⟨fun y hy => ?_, forall_mem_singleton.mpr
        ⟨_, mem_append_right _ mem_cons_self, hid, mem_append_right _ (mem_singleton_self _)⟩⟩
      obtain ⟨c', hc', hy, hmem⟩ := h.complete y hy
      rcases mem_append.mp hc' with hc' | hc'
      · exact ⟨c', mem_append_left _ hc', hy, hmem⟩
      · rcases mem_cons.mp hc' with rfl | hc'
        · exact ⟨_, mem_append_right _ mem_cons_self, hy, mem_append_left _ hmem⟩
        · exact ⟨c', mem_append_right _ (mem_cons_of_mem _ hc'), hy, hmem⟩

theorem grouped_foldl (header : Header) (xs : List (Plugin × Request)) :
    Grouped header xs (xs.foldl (addToChunk header) []) := by
  induction xs using List.reverseRecOn with
  | nil => exact Grouped.nil header
  | append_singleton xs x ih =>
    rw [foldl_append]
    exact ih.addToChunk x

theorem Grouped.eq_nil_iff (h : Grouped header xs cs) : cs = [] ↔ xs = [] := by
  constructor
  · rintro rfl
    refine eq_nil_iff_forall_not_mem.mpr fun x hx => ?_
    obtain ⟨c, hc, -⟩ := h.complete x hx
    cases hc
  · rintro rfl
    refine eq_nil_iff_forall_not_mem.mpr fun c hc => ?_
    obtain ⟨q, hq⟩ := h.source c hc
    cases hq

/-! ## Handing on -/

section Dispatch

variable {plugins : Plugins}

variable {cs : List Chunk} {r : QueryResponse}

theorem exists_of_mem_dispatched {x : Plugin × QueryRequest}
    (h : x ∈ (dispatch plugins cs r).dispatched) : ∃ c ∈ cs, x = (c.plugin, c.request) := by
  induction cs generalizing r with
  | nil => cases h
  | cons c cs ih =>
    have hrest : ∀ {r}, x ∈ (c.plugin, c.request) :: (dispatch plugins cs r).dispatched →
        ∃ c' ∈ c :: cs, x = (c'.plugin, c'.request) := by
      intro r h
      rcases mem_cons.mp h with h | h
      · exact ⟨c, mem_cons_self, h⟩
      · obtain ⟨c', hc', hx⟩ := ih h
        exact ⟨c', mem_cons_of_mem c hc', hx⟩
    rw [dispatch] at h
    split at h
    next => exact hrest h
    next => exact hrest h
    next => exact ⟨c, mem_cons_self, mem_singleton.mp h⟩

theorem dispatched_singleton (c : Chunk) (r : QueryResponse) :
    (dispatch plugins [c] r).dispatched = [(c.plugin, c.request)] := by
  rw [dispatch]
  split <;> rfl

structure Merged (plugins : Plugins) (cs : List Chunk) (r r' : QueryResponse) : Prop where
  payload : ∀ p, p ∈ r'.payload ↔ p ∈ r.payload ∨
    ∃ c ∈ cs, ∃ a, plugins.handleCommand c.plugin c.request = .success a ∧ p ∈ a.payload
  header : ∀ c a, cs.head? = some c → plugins.handleCommand c.plugin c.request = .success a →
    r'.header = some (r.header.getD (a.header.getD {}))
  kept : cs = [] → r' = r

theorem Merged.cons {r' a : QueryResponse}
    (ha : plugins.handleCommand c.plugin c.request = .success a)
    (hcs : ∀ c ∈ cs, ∃ a, plugins.handleCommand c.plugin c.request = .success a)
    (h : Merged plugins cs (mergeResponse r a) r') : Merged plugins (c :: cs) r r' := by
  refine ⟨fun p => ?_, fun c' a' hc' ha' => ?_, fun h => by cases h⟩
  · rw [h.payload, mergeResponse, mem_append, or_assoc]
    refine or_congr_right ⟨?_, ?_⟩
    · rintro (hp | ⟨c', hc', hrest⟩)
      · exact ⟨c, mem_cons_self, a, ha, hp⟩
      · exact ⟨c', mem_cons_of_mem c hc', hrest⟩
    · rintro ⟨c', hc', a', ha', hp⟩
      rcases mem_cons.mp hc' with rfl | hc'
      · rw [ha] at ha'
        cases ha'
        exact .inl hp
      · exact .inr ⟨c', hc', a', ha', hp⟩
  · cases hc'
    rw [ha] at ha'
    cases ha'
    cases cs with
    | nil =>
      rw [h.kept rfl]
      rfl
    | cons d cs =>
      obtain ⟨b, hb⟩ := hcs d mem_cons_self
      exact h.header d b rfl hb

theorem dispatch_of_answers
    (h : ∀ x ∈ (dispatch plugins cs r).dispatched,
      ∃ a, plugins.handleCommand x.1 x.2 = .success a) :
    (dispatch plugins cs r).dispatched = cs.map (fun c => (c.plugin, c.request)) ∧
      ∃ r', (dispatch plugins cs r).response = some r' ∧ Merged plugins cs r r' := by
  induction cs generalizing r with
  | nil => exact ⟨rfl, r, rfl, fun p => by simp, fun c a hc => (by cases hc), fun _ => rfl⟩
  | cons c cs ih =>
    rw [dispatch] at h ⊢
    cases ha : plugins.handleCommand c.plugin c.request with
    | success a =>
      simp only [ha] at h ⊢
      obtain ⟨hdispatched, r', hr', hmerged⟩ := ih fun x hx => h x (mem_cons_of_mem _ hx)
      refine ⟨by rw [hdispatched, map_cons], r', hr', hmerged.cons ha fun d hd => ?_⟩
      refine h (d.plugin, d.request) (mem_cons_of_mem _ ?_)
      rw [hdispatched]
      exact mem_map_of_mem hd
    | failure | thrown =>
      simp only [ha] at h
      obtain ⟨a, ha'⟩ := h _ mem_cons_self
      rw [ha] at ha'
      cases ha'

end Dispatch

/-! ## One plugin -/

def Manager.ofPlugin (plugin : Plugin) (names : List (List Char)) (permissions : Permissions) :
    Manager where
  commands := { commands := names.foldl (fun t c => t.insert (makeKey c) plugin) ∅ }
  permissions := permissions
  cache := []
  distinct := by
    have hsame : ∀ (t : Table (List Char) Plugin),
        (∀ key p, t.lookup key = some p → p = plugin) → ∀ key p,
        (names.foldl (fun t c => t.insert (makeKey c) plugin) t).lookup key = some p →
          p = plugin := by
      induction names with
      | nil => exact fun t ht => ht
      | cons c names ih =>
        refine fun t ht => ih _ fun key p hp => ?_
        rw [Table.lookup_insert_eq_if] at hp
        split at hp
        next => exact (Option.some.inj hp).symm
        next => exact ht key p hp
    have hget : ∀ c p, get
        { commands := names.foldl (fun t c => t.insert (makeKey c) plugin) ∅ } c = some p →
        p = plugin := by
      intro c p hp
      rw [Commands.get] at hp
      rcases Option.or_eq_some_iff.mp hp with hp | ⟨-, hp⟩
      · exact hsame ∅ (fun key p h => by cases h) _ p hp
      · cases hp
    intro c c' p p' hp hp' _
    rw [hget c p hp, hget c' p' hp']

def Plugins.answering (header : Option Header) : Plugins where
  handleCommand _ request := .success ⟨header, request.payload.map fun q => ⟨q.command, .ok, []⟩⟩
  order chunks := chunks
  order_perm _ := List.Perm.refl _
  providersOf _ := []

/-! ## The gate -/

variable (plugins : Plugins) (m : Manager) (depth : ℕ) (request : QueryRequest)

theorem finish_dispatched_header (plugin : Plugin) :
    (finish plugins { chunks := [⟨plugin, request⟩] }).dispatched = [(plugin, request)] := by
  rw [finish, if_neg (cons_ne_nil _ _), perm_singleton.mp (plugins.order_perm _)]
  exact dispatched_singleton _ _

theorem executeQuery_header {plugin : Plugin} (hdepth : depth < maxQueryDepth)
    (hheader : request.header.command ≠ [])
    (hget : m.commands.get request.header.command = some plugin)
    (hallowed : m.allows (extractSubject m.cache request.header) plugin request.header.command =
      true) :
    executeQuery plugins m depth request = finish plugins { chunks := [⟨plugin, request⟩] } := by
  rw [executeQuery, if_neg (by omega)]
  simp [hheader, hget, hallowed]

theorem executeQuery_batch (hdepth : depth < maxQueryDepth)
    (hheader : request.header.command = []) :
    executeQuery plugins m depth request = finish plugins (request.payload.foldl
        (m.sortPayload request.header (extractSubject m.cache request.header)) {}) := by
  rw [executeQuery, if_neg (by omega)]
  simp [hheader]

variable {plugins m depth request}

theorem allows_of_mem_dispatched (hdepth : depth < maxQueryDepth)
    (hheader : request.header.command = []) {x : Plugin × QueryRequest}
    (hx : x ∈ (executeQuery plugins m depth request).dispatched) {q : Request}
    (hq : q ∈ x.2.payload) :
    m.allows (extractSubject m.cache x.2.header) x.1 q.command = true := by
  rw [executeQuery_batch plugins m depth request hdepth hheader, foldl_sortPayload, finish] at hx
  split at hx
  next =>
    split at hx <;> cases hx
  next =>
    have hgrouped := grouped_foldl request.header
      (m.accepted (extractSubject m.cache request.header) request.payload)
    obtain ⟨c, hc, rfl⟩ := exists_of_mem_dispatched hx
    have hc := (plugins.order_perm _).mem_iff.mp hc
    obtain ⟨p, hp, hid⟩ := hgrouped.sound c hc q hq
    obtain ⟨q', hq'⟩ := hgrouped.source c hc
    obtain ⟨q₁, -, hget, hallowed, rfl⟩ := mem_accepted.mp hp
    obtain ⟨q₂, -, hget', -⟩ := mem_accepted.mp hq'
    have hplugin : p = c.plugin := m.distinct _ _ _ _ hget hget' hid
    rw [hgrouped.header c hc, ← hplugin]
    exact hallowed

variable (plugins m depth request)

/-- Whatever is handed to a plugin was allowed, if and only if a header command that is run
takes along only payloads that the caller may run at its plugin. -/
theorem dispatched_allowed_iff :
    (∀ x ∈ (executeQuery plugins m depth request).dispatched, ∀ q ∈ x.2.payload,
      m.permissions.isAllowed (extractSubject m.cache x.2.header)
        (makeObject x.1.getName q.command) = true) ↔
    (depth < maxQueryDepth → request.header.command ≠ [] → ∀ plugin,
      m.commands.get request.header.command = some plugin →
      m.permissions.isAllowed (extractSubject m.cache request.header)
        (makeObject plugin.getName request.header.command) = true →
      ∀ q ∈ request.payload, m.permissions.isAllowed (extractSubject m.cache request.header)
        (makeObject plugin.getName q.command) = true) := by
  by_cases hdepth : depth < maxQueryDepth
  · rw [imp_iff_right hdepth]
    by_cases hheader : request.header.command = []
    · exact iff_of_true (fun x hx q hq => allows_of_mem_dispatched hdepth hheader hx hq)
        fun h => absurd hheader h
    · rw [imp_iff_right hheader]
      cases hget : m.commands.get request.header.command with
      | none =>
        refine iff_of_true (fun x hx => ?_) fun plugin h => by cases h
        rw [executeQuery, if_neg (by omega)] at hx
        simp [hheader, hget, finish] at hx
      | some plugin =>
        simp only [Option.some.injEq, forall_eq']
        by_cases hallowed : m.allows (extractSubject m.cache request.header) plugin
            request.header.command = true
        · rw [executeQuery_header plugins m depth request hdepth hheader hget hallowed,
            finish_dispatched_header, forall_mem_singleton]
          exact (imp_iff_right hallowed).symm
        · refine iff_of_true (fun x hx => ?_) fun h => absurd h hallowed
          rw [executeQuery, if_neg (by omega)] at hx
          simp [hheader, hget, hallowed] at hx
  · rw [executeQuery, if_pos (by omega)]
    exact iff_of_true (fun x hx => by cases hx) fun h => absurd h hdepth

def okOnly : Permissions := ⟨true, true, true, false, [⟨"*".toList, ["M.ok".toList]⟩]⟩

theorem okOnly_secret :
    okOnly.isAllowed "*".toList (makeObject "M".toList "secret".toList) = false := by
  rw [Bool.eq_false_iff]
  intro h
  obtain ⟨rule, hrule, -, O, hO, hmatch⟩ := (isAllowed_iff rfl).mp h
  rw [mem_singleton.mp hrule, mem_singleton] at hO
  subst hO
  rw [objectMatches_of_dot (fun _ => by decide),
    glob_iff (by decide) ⟨by decide, by decide⟩] at hmatch
  exact absurd (hmatch.length_eq (by decide)) (by decide)

/-- A caller who may run one command of a plugin runs another by sending it along with the
first. -/
theorem dispatched_secret :
    let plugin : Plugin := ⟨1, [], "M".toList, "M".toList, true⟩
    let m := ofPlugin plugin ["ok".toList, "secret".toList] okOnly
    let request : QueryRequest := ⟨⟨"ok".toList, []⟩, [⟨"secret".toList, []⟩]⟩
    (executeQuery (answering none) m 0 request).dispatched = [(plugin, request)] ∧
      m.permissions.isAllowed (extractSubject m.cache request.header)
        (makeObject plugin.getName "secret".toList) = false := by
  intro plugin m request
  refine ⟨?_, okOnly_secret⟩
  have hsubject : subjectMatches "*".toList "*".toList = true := rfl
  have hallowed : m.allows "*".toList plugin "ok".toList = true :=
    (isAllowed_iff rfl).mpr ⟨_, mem_singleton_self _, hsubject, _,
      mem_singleton_self _, Bool.or_eq_true_iff.mpr (.inl (glob_self _))⟩
  rw [executeQuery_header _ m 0 request (by decide) (by decide) rfl hallowed]
  exact finish_dispatched_header _ request plugin

/-! ## The answers -/

section Answers

variable {plugins : Plugins} {m : Manager} {subject : List Char} {payload : List Request}

section

variable (plugins : Plugins) (m : Manager) (subject : List Char) (payload : List Request)

/-- A command is answered by its plugin, by a denial or by the payload that names the unknown
commands. -/
def Answered
    (outcome : Outcome) (r : QueryResponse) (c : List Char) : Prop :=
  match m.commands.get c with
  | none => unknownPayload plugins.providersOf (m.missing payload) ∈ r.payload
  | some plugin =>
    if m.allows subject plugin c then
      ∃ chunk a, (plugin, chunk) ∈ outcome.dispatched ∧
        plugins.handleCommand plugin chunk = .success a ∧
        ∃ p ∈ a.payload, p.command = c ∧ p ∈ r.payload
    else deniedPayload c subject ∈ r.payload

/-- Every requested command is answered, and the denied commands are the marked ones. -/
def FullyAnswered
    (outcome : Outcome) : Prop :=
  ∃ r, outcome.response = some r ∧
    (∀ c ∈ requested payload, Answered plugins m subject payload outcome r c) ∧
    markers r.header = m.denied subject payload

end

/-- Each request handed on is answered with one payload for each of its commands. -/
def Answers (plugins : Plugins) (outcome : Outcome) : Prop :=
  ∀ x ∈ outcome.dispatched, ∃ a, plugins.handleCommand x.1 x.2 = .success a ∧
    (a.payload.map (·.command)).Perm (x.2.payload.map (·.command))

theorem lines_setResponseBad {c c' message message' : List Char}
    (h : setResponseBad c message = setResponseBad c' message') : message = message' :=
  singleton_inj.mp (congrArg Response.lines h)

theorem unknownPayload_ne_deniedPayload (providers : List Char → List (List Char))
    (commands : List (List Char)) (c subject : List Char) :
    unknownPayload providers commands ≠ deniedPayload c subject := fun h => by
  have := congrArg List.head? (lines_setResponseBad h)
  simp [unknownCommandsMessage] at this

theorem joinCommands_eq_nil_iff : joinCommands commands = [] ↔ ∀ c ∈ commands, c = [] := by
  have hfold : ∀ lst : List Char,
      commands.foldl (fun lst c => appendList lst c ", ".toList) lst = [] ↔
        lst = [] ∧ ∀ c ∈ commands, c = [] := by
    induction commands with
    | nil => simp
    | cons c commands ih =>
      intro lst
      rw [foldl_cons, ih, forall_mem_cons, ← and_assoc]
      refine and_congr_left fun _ => ?_
      rw [appendList]
      by_cases hc : c = []
      · simp [hc]
      · by_cases hlst : lst = []
        all_goals simp [hc, hlst]
  exact (hfold []).trans (and_iff_right rfl)

variable {c : List Char}

theorem Manager.mem_missing :
    c ∈ m.missing payload ↔ c ∈ requested payload ∧ m.commands.get c = none := by
  rw [missing, mem_filter, Option.isNone_iff_eq_none]

theorem Manager.mem_denied :
    c ∈ m.denied subject payload ↔ c ∈ requested payload ∧
      ∃ plugin, m.commands.get c = some plugin ∧ m.allows subject plugin c = false := by
  rw [denied, mem_filter, Option.any_eq_true]
  simp

theorem forall_answered_iff {outcome : Outcome} {r : QueryResponse}
    (hdenied : ∀ c ∈ m.denied subject payload, deniedPayload c subject ∈ r.payload)
    (haccepted : ∀ x ∈ m.accepted subject payload, ∃ chunk a, (x.1, chunk) ∈ outcome.dispatched ∧
        plugins.handleCommand x.1 chunk = .success a ∧
        ∃ p ∈ a.payload, p.command = x.2.command ∧ p ∈ r.payload) :
    (∀ c ∈ requested payload, Answered plugins m subject payload outcome r c) ↔
      (m.missing payload = [] ∨
        unknownPayload plugins.providersOf (m.missing payload) ∈ r.payload) := by
  constructor
  · intro h
    rw [or_iff_not_imp_left]
    intro hmissing
    obtain ⟨c, hc⟩ := exists_mem_of_ne_nil _ hmissing
    obtain ⟨hrequested, hget⟩ := mem_missing.mp hc
    have := h c hrequested
    rwa [Answered, hget] at this
  · intro h c hc
    rw [Answered]
    cases hget : m.commands.get c with
    | none =>
      have hmissing := mem_missing.mpr ⟨hc, hget⟩
      exact h.resolve_left (ne_nil_of_mem hmissing)
    | some plugin =>
      simp only
      split
      next hallowed =>
        obtain ⟨q, hq, rfl⟩ := mem_map.mp hc
        exact haccepted (plugin, _) (mem_accepted.mpr ⟨q, hq, hget, hallowed, rfl⟩)
      next hnot =>
        exact hdenied c (mem_denied.mpr
          ⟨hc, plugin, hget, Bool.not_eq_true _ ▸ hnot⟩)

/-! ## A sorted batch -/

structure Sorted (m : Manager) (subject : List Char) (header : Header) (payload : List Request)
    (b : Batch) : Prop where
  grouped : Grouped header (m.accepted subject payload) b.chunks
  denials : b.response.payload = (m.denied subject payload).map (deniedPayload · subject)
  marked : markers b.response.header = m.denied subject payload
  stamped : b.response.header.isSome = true ↔ m.denied subject payload ≠ []
  named : b.missingCommands = joinCommands (m.missing payload)
  listed : b.missingList = m.missing payload

theorem sorted_foldl (header : Header) :
    Sorted m subject header payload (payload.foldl (m.sortPayload header subject) {}) := by
  rw [foldl_sortPayload]
  refine ⟨grouped_foldl header _, ?_, ?_, ⟨fun h hnil => ?_, fun h => ?_⟩, rfl, rfl⟩
  · exact foldl_emitDeniedPayload_payload subject _ {}
  · exact markers_foldl_emitDeniedPayload subject _ {}
  · rw [hnil] at h
    cases h
  · exact isSome_header_foldl subject h {}

theorem fullyAnswered_tooDeep_iff {request : QueryRequest} :
    FullyAnswered plugins m subject payload ⟨[], some (tooDeep request)⟩ ↔ payload = [] := by
  constructor
  · rintro ⟨r, hr, hanswered, -⟩
    cases hr
    by_contra hne
    obtain ⟨q, hq⟩ := exists_mem_of_ne_nil _ hne
    have := hanswered _ (mem_map_of_mem hq)
    rw [Answered] at this
    split at this
    next =>
      have := congrArg List.head? (lines_setResponseBad (mem_singleton.mp this))
      simp [unknownCommandsMessage] at this
    next =>
      split at this
      next =>
        obtain ⟨chunk, a, hchunk, -⟩ := this
        cases hchunk
      next =>
        have := congrArg List.head? (lines_setResponseBad (mem_singleton.mp this))
        simp at this
  · rintro rfl
    exact ⟨_, rfl, fun c hc => (by cases hc), rfl⟩

variable {b : Batch}

theorem fullyAnswered_finish_nil_iff (hb : Sorted m subject header payload b)
    (haccepted : m.accepted subject payload = []) :
    FullyAnswered plugins m subject payload (finish plugins b) ↔
      m.missing payload = [] ∨ ∃ c ∈ m.missing payload, c ≠ [] := by
  have hmem : ∀ {extra : List Response}, ∀ c ∈ m.denied subject payload,
      deniedPayload c subject ∈ b.response.payload ++ extra := by
    intro extra c hc
    rw [hb.denials]
    exact mem_append_left _ (mem_map_of_mem hc)
  have hnone : ∀ {P : Plugin × Request → Prop}, ∀ x ∈ m.accepted subject payload, P x := by
    intro P x hx
    rw [haccepted] at hx
    cases hx
  have hjoin := joinCommands_eq_nil_iff (m.missing payload)
  rw [← hb.named] at hjoin
  rw [finish, if_pos (hb.grouped.eq_nil_iff.mpr haccepted)]
  by_cases hnamed : b.missingCommands = []
  · rw [if_neg (not_not.mpr hnamed)]
    have hmem' : ∀ c ∈ m.denied subject payload, deniedPayload c subject ∈ b.response.payload :=
      fun c hc => append_nil b.response.payload ▸ hmem c hc
    constructor
    · rintro ⟨r, hr, hanswered, -⟩
      cases hr
      refine ((forall_answered_iff hmem' hnone).mp hanswered).imp_right fun hunknown => ?_
      rw [hb.denials] at hunknown
      obtain ⟨c, -, hc⟩ := mem_map.mp hunknown
      exact absurd hc.symm (unknownPayload_ne_deniedPayload _ _ _ _)
    · rintro (hmissing | ⟨c, hc, hne⟩)
      · exact ⟨_, rfl, (forall_answered_iff hmem' hnone).mpr (.inl hmissing), hb.marked⟩
      · exact absurd (hjoin.mp hnamed c hc) hne
  · rw [if_pos hnamed]
    refine iff_of_true ⟨_, rfl, (forall_answered_iff hmem hnone).mpr (.inr ?_), hb.marked⟩ ?_
    · refine mem_append_right _ (mem_singleton.mpr ?_)
      rw [unknownPayload, hb.named, hb.listed]
    · rw [hjoin, not_forall] at hnamed
      obtain ⟨c, hc⟩ := hnamed
      exact .inr ⟨c, Classical.not_imp.mp hc⟩

variable {cs : List Chunk}

theorem markers_merged_iff (hb : Sorted m subject header payload b) {c : Chunk}
    {a r : QueryResponse} (ha : plugins.handleCommand c.plugin c.request = .success a)
    (hr : Merged plugins (c :: cs) b.response r) : markers r.header = m.denied subject payload ↔
      (m.denied subject payload ≠ [] ∨ markers a.header = []) := by
  have hfirst := hr.header c a rfl ha
  cases hresponse : b.response.header with
  | some h =>
    have hne := hb.stamped.mp (by rw [hresponse]; rfl)
    refine iff_of_true ?_ (.inl hne)
    rw [hfirst, ← hb.marked, hresponse]
    rfl
  | none =>
    have hnil : m.denied subject payload = [] :=
      not_not.mp (hb.stamped.not.mp (by rw [hresponse]; simp))
    rw [hnil, or_iff_right (not_not.mpr rfl), hfirst, hresponse]
    rfl

theorem accepted_answered {response r : QueryResponse}
    (hcs : Grouped header (m.accepted subject payload) cs)
    (hdispatched : (dispatch plugins cs response).dispatched =
      cs.map fun c => (c.plugin, c.request))
    (hanswers : Answers plugins (dispatch plugins cs response))
    (hr : Merged plugins cs response r) : ∀ x ∈ m.accepted subject payload,
      ∃ chunk a, (x.1, chunk) ∈ (dispatch plugins cs response).dispatched ∧
        plugins.handleCommand x.1 chunk = .success a ∧
        ∃ p ∈ a.payload, p.command = x.2.command ∧ p ∈ r.payload := by
  intro x hx
  obtain ⟨c, hc, hid, hmem⟩ := hcs.complete x hx
  obtain ⟨q', hq'⟩ := hcs.source c hc
  obtain ⟨q₁, -, hget, -⟩ := mem_accepted.mp hx
  obtain ⟨q₂, -, hget', -⟩ := mem_accepted.mp hq'
  have hplugin : c.plugin = x.1 := m.distinct _ _ _ _ hget' hget hid
  have hmem' : (c.plugin, c.request) ∈ (dispatch plugins cs response).dispatched := by
    rw [hdispatched]
    exact mem_map_of_mem hc
  obtain ⟨a, ha, hperm⟩ := hanswers _ hmem'
  obtain ⟨p, hp, hcommand⟩ := mem_map.mp (hperm.mem_iff.mpr (mem_map.mpr ⟨_, hmem, rfl⟩))
  refine ⟨c.request, a, hplugin ▸ hmem', hplugin ▸ ha, p, hp, hcommand, ?_⟩
  exact (hr.payload p).mpr (.inr ⟨c, hc, a, ha, hp⟩)

theorem fullyAnswered_dispatch_iff (hb : Sorted m subject header payload b) (hne : cs ≠ [])
    (hperm : cs.Perm b.chunks) (hanswers : Answers plugins (dispatch plugins cs b.response)) :
    FullyAnswered plugins m subject payload (dispatch plugins cs b.response) ↔
      (m.missing payload = [] ∨ ∃ x ∈ (dispatch plugins cs b.response).dispatched, ∃ a,
          plugins.handleCommand x.1 x.2 = .success a ∧
          unknownPayload plugins.providersOf (m.missing payload) ∈ a.payload) ∧
      (m.denied subject payload ≠ [] ∨ ∀ x ∈ (dispatch plugins cs b.response).dispatched.head?, ∀ a,
          plugins.handleCommand x.1 x.2 = .success a → markers a.header = []) := by
  obtain ⟨hdispatched, r, hr, hmerged⟩ := dispatch_of_answers fun x hx =>
    (hanswers x hx).imp fun _ h => h.1
  have hcs : Grouped header (m.accepted subject payload) cs := by
    have hmem : ∀ c, c ∈ cs ↔ c ∈ b.chunks := fun c => hperm.mem_iff
    refine ⟨fun c hc => ?_, fun c hc => ?_, fun c hc => ?_, fun x hx => ?_⟩
    · exact hb.grouped.header c ((hmem c).mp hc)
    · exact hb.grouped.source c ((hmem c).mp hc)
    · exact hb.grouped.sound c ((hmem c).mp hc)
    · obtain ⟨c, hc, h⟩ := hb.grouped.complete x hx
      exact ⟨c, (hmem c).mpr hc, h⟩
  have hdenied : ∀ c ∈ m.denied subject payload, deniedPayload c subject ∈ r.payload := by
    intro c hc
    refine (hmerged.payload _).mpr (.inl ?_)
    rw [hb.denials]
    exact mem_map_of_mem hc
  have hunknown : unknownPayload plugins.providersOf (m.missing payload) ∈ r.payload ↔
      ∃ x ∈ (dispatch plugins cs b.response).dispatched, ∃ a,
        plugins.handleCommand x.1 x.2 = .success a ∧
        unknownPayload plugins.providersOf (m.missing payload) ∈ a.payload := by
    rw [hmerged.payload, hdispatched, hb.denials, or_iff_right]
    · constructor
      · rintro ⟨c, hc, h⟩
        exact ⟨_, mem_map_of_mem hc, h⟩
      · rintro ⟨x, hx, h⟩
        obtain ⟨c, hc, rfl⟩ := mem_map.mp hx
        exact ⟨c, hc, h⟩
    · intro hmem
      obtain ⟨c, -, hc⟩ := mem_map.mp hmem
      exact unknownPayload_ne_deniedPayload _ _ _ _ hc.symm
  have hmarked : markers r.header = m.denied subject payload ↔ (m.denied subject payload ≠ [] ∨
        ∀ x ∈ (dispatch plugins cs b.response).dispatched.head?, ∀ a,
          plugins.handleCommand x.1 x.2 = .success a → markers a.header = []) := by
    obtain ⟨c, cs', rfl⟩ := exists_cons_of_ne_nil hne
    obtain ⟨a, ha, -⟩ := hanswers (c.plugin, c.request) (hdispatched ▸ mem_cons_self)
    rw [markers_merged_iff hb ha hmerged, hdispatched]
    refine or_congr_right ⟨fun h x hx a' ha' => ?_, fun h => h _ rfl a ha⟩
    cases hx
    rw [ha] at ha'
    cases ha'
    exact h
  rw [← hunknown, ← hmarked,
    ← forall_answered_iff hdenied (accepted_answered hcs hdispatched hanswers hmerged)]
  constructor
  · rintro ⟨r', hr', h⟩
    rw [hr] at hr'
    cases hr'
    exact h
  · intro h
    exact ⟨r, hr, h⟩

end Answers

/-- A batch is answered in full if and only if it is empty, or it is not nested too deep, its
unknown commands come without any accepted one and one of them has a name (or a plugin
answers for them), and no plugin's own marker stands in for the header. -/
theorem fullyAnswered_iff (plugins : Plugins) (m : Manager) (depth : ℕ) (request : QueryRequest)
    (hheader : request.header.command = [])
    (hanswers : Answers plugins (executeQuery plugins m depth request)) :
    let subject := extractSubject m.cache request.header
    let outcome := executeQuery plugins m depth request
    FullyAnswered plugins m subject request.payload outcome ↔
      request.payload = [] ∨ depth < maxQueryDepth ∧ (m.missing request.payload = [] ∨
          (m.accepted subject request.payload = [] ∧ ∃ c ∈ m.missing request.payload, c ≠ []) ∨
          ∃ x ∈ outcome.dispatched, ∃ a, plugins.handleCommand x.1 x.2 = .success a ∧
            unknownPayload plugins.providersOf (m.missing request.payload) ∈ a.payload) ∧
        (m.denied subject request.payload ≠ [] ∨ ∀ x ∈ outcome.dispatched.head?, ∀ a,
            plugins.handleCommand x.1 x.2 = .success a → markers a.header = []) := by
  intro subject outcome
  by_cases hdepth : depth < maxQueryDepth
  swap
  · have houtcome : outcome = ⟨[], some (tooDeep request)⟩ := if_pos (by omega)
    rw [houtcome, fullyAnswered_tooDeep_iff]
    simp [hdepth]
  have houtcome : outcome = finish plugins (request.payload.foldl
      (m.sortPayload request.header subject) {}) :=
    executeQuery_batch plugins m depth request hdepth hheader
  have hb : Sorted m subject request.header request.payload (request.payload.foldl
      (m.sortPayload request.header subject) {}) := sorted_foldl request.header
  generalize request.payload.foldl (m.sortPayload request.header subject) {} = b at houtcome hb
  by_cases haccepted : m.accepted subject request.payload = []
  · have hdispatched : outcome.dispatched = [] := by
      rw [houtcome, finish, if_pos (hb.grouped.eq_nil_iff.mpr haccepted)]
      split <;> rfl
    rw [houtcome, fullyAnswered_finish_nil_iff hb haccepted, ← houtcome]
    constructor
    · intro h
      refine .inr ⟨hdepth, h.imp_right fun h => .inl ⟨haccepted, h⟩, .inr fun x hx => ?_⟩
      rw [hdispatched] at hx
      cases hx
    · rintro (h | ⟨-, h | ⟨-, h⟩ | ⟨x, hx, -⟩, -⟩)
      · rw [h]
        exact .inl rfl
      · exact .inl h
      · exact .inr h
      · rw [hdispatched] at hx
        cases hx
  · have hchunks := hb.grouped.eq_nil_iff.not.mpr haccepted
    have hperm := plugins.order_perm b.chunks
    have hne : plugins.order b.chunks ≠ [] := fun h => by
      rw [h] at hperm
      exact hchunks hperm.nil_eq.symm
    rw [finish, if_neg hchunks] at houtcome
    have hanswers' : Answers plugins outcome := hanswers
    rw [houtcome] at hanswers' ⊢
    rw [fullyAnswered_dispatch_iff hb hne hperm hanswers']
    have hpayload : request.payload ≠ [] := by
      intro h
      rw [h] at haccepted
      exact haccepted rfl
    simp [hdepth, haccepted, hpayload]

theorem answers_answering (header : Option Header) (outcome : Outcome) :
    Answers (answering header) outcome := fun x _ =>
  ⟨_, rfl, by
    rw [map_map]
    exact List.Perm.refl _⟩

/-- A batch of a command that is run and one that is denied. -/
theorem fullyAnswered_ok :
    let m := ofPlugin ⟨1, [], "M".toList, "M".toList, true⟩ ["ok".toList, "secret".toList] okOnly
    let batch : List Request := [⟨"ok".toList, []⟩, ⟨"secret".toList, []⟩]
    FullyAnswered (answering none) m "*".toList batch
      (executeQuery (answering none) m 0 ⟨{}, batch⟩) := by
  intro m batch
  refine (fullyAnswered_iff (answering none) m 0 ⟨{}, batch⟩ rfl (answers_answering none _)).mpr
    (.inr ⟨by decide, .inl (by decide), .inl (ne_nil_of_mem (a := "secret".toList) ?_)⟩)
  refine mem_filter.mpr ⟨by decide, ?_⟩
  exact congrArg not okOnly_secret

/-- An unknown command next to a known one gets no answer, and a marker a plugin sends is
passed on though nothing was denied. -/
theorem unanswered_nosuch :
    let m := ofPlugin ⟨1, [], "M".toList, "M".toList, true⟩ ["ok".toList] {}
    (executeQuery (answering none) m 0
        ⟨{}, [⟨"ok".toList, []⟩, ⟨"nosuch".toList, []⟩]⟩).response =
      some ⟨some {}, [⟨"ok".toList, .ok, []⟩]⟩ ∧
    m.missing [⟨"ok".toList, []⟩, ⟨"nosuch".toList, []⟩] = ["nosuch".toList] ∧
    ((executeQuery (answering (some ⟨[], [⟨"nscp.query_denied".toList, "x".toList⟩]⟩)) m 0
        ⟨{}, [⟨"ok".toList, []⟩]⟩).response.map fun r => markers r.header) = some ["x".toList] ∧
    m.denied "*".toList [⟨"ok".toList, []⟩] = [] := by
  decide +kernel

end Nscp.Service
