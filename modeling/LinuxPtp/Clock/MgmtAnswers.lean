import LinuxPtp.Clock.MgmtUses

/-!
# How often a management message is answered

The clock answers by itself, or each of its ports that the message is for answers, or
the message is refused once.  Which of these it is depends on the action, the
identifier, the port it came in on and the port it is for.  This module counts the
answers of the dispatchers when memory can be had.
-/

namespace LinuxPtp.Clock

open ByteOrder Access Wire Port Bmc

/-! ## Who is to answer -/

/-- The identifiers of data that belongs to a port. -/
def portLevelIds : List ℕ :=
  portManagementIds ++ [MgmtId.portDataSetNp.code, MgmtId.portPropertiesNp.code]

def Answer.port : Answer → ℕ
  | .dataSet port _ _ => port
  | .error port _ _ => port

/-- The numbers that decide who answers. -/
structure Dispatched where
  action : Option ManagementAction
  length : ℕ
  id : ℕ
  targetPort : ℕ

def dispatched (host : Host) (mem : Memory) : Dispatched where
  action := managementAction mem
  length := managementLength host mem
  id := managementId host mem
  targetPort := hostWord host.endian mem TargetPort.portNumber.offset 2

namespace Dispatched

variable (d : Dispatched) (c : ManagedClock) (ingress : MgmtPort)

def meant (port : ReportedPort) : Bool :=
  d.targetPort == port.number || d.targetPort == 0xffff

def matching : List ReportedPort :=
  c.clkPorts.filter d.meant

/-- The clock decides by itself: a SET without a body or from afar is refused, and so
are the port properties from afar; the other identifiers are those of the clock. -/
def ClockLevel : Prop :=
  d.action = some .set ∧
      (d.length = 2 ∧ d.id ≠ 0 ∨ ingress.number ≠ c.udsPort.number) ∨
    d.id = MgmtId.portPropertiesNp.code ∧ ingress.number ≠ c.udsPort.number ∨
    d.id ∈ clockManagementIds

/-- `port_manage` has something to say to the action. -/
def Provided : Prop :=
  d.id ∈ portManagementIds ∨
    d.id = MgmtId.portDataSetNp.code ∧ d.action ≠ some .command ∨
    d.id = MgmtId.portPropertiesNp.code ∧ d.action = some .get

instance : Decidable (d.ClockLevel c ingress) :=
  inferInstanceAs (Decidable (_ ∨ _ ∨ _))

instance : Decidable d.Provided :=
  inferInstanceAs (Decidable (_ ∨ _ ∨ _))

/-- The ports do not know the action, and more than one of them is asked. -/
def CutShort : Prop :=
  ¬d.ClockLevel c ingress ∧ d.id ∈ portLevelIds ∧ ¬d.Provided ∧
    2 ≤ (d.matching c).length

instance : Decidable (d.CutShort c ingress) :=
  inferInstanceAs (Decidable (_ ∧ _))

end Dispatched

/-- Every request has got its answers, and nothing else has. -/
structure RightlyAnswered (c : ManagedClock) (ingress : MgmtPort) (d : Dispatched)
    (answers : List Answer) : Prop where
  clock : isRequest d.action → d.ClockLevel c ingress → answers.length = 1
  ports : isRequest d.action → ¬d.ClockLevel c ingress → d.id ∈ portLevelIds →
    d.matching c ≠ [] → answers.map Answer.port = (d.matching c).map ReportedPort.number
  unknown : isRequest d.action → ¬d.ClockLevel c ingress →
    (d.id ∉ portLevelIds ∨ d.matching c = []) →
      ∃ port error, answers = [.error port error d.id]
  reply : isRequest d.action = false → answers = []

/-- What the dispatchers do about a request. -/
structure Settled (c : ManagedClock) (ingress : MgmtPort) (d : Dispatched)
    (given : List Answer) : Prop where
  clock : d.ClockLevel c ingress → given.length = 1
  provided : ¬d.ClockLevel c ingress → d.matching c ≠ [] → d.Provided →
    given.map Answer.port = (d.matching c).map ReportedPort.number
  refused : ¬d.ClockLevel c ingress → ¬d.Provided → ∀ target rest,
    d.matching c = target :: rest → given = [.error target.number .noSuchId d.id]
  nobody : ¬d.ClockLevel c ingress → d.matching c = [] →
    ∃ port error, given = [.error port error d.id]

/-- One answer settles a request for the clock. -/
theorem Settled.clockLevel {c : ManagedClock} {ingress : MgmtPort} {d : Dispatched}
    {given : List Answer} (hlevel : d.ClockLevel c ingress)
    (hone : given.length = 1) : Settled c ingress d given :=
  ⟨fun _ => hone, fun hno => absurd hlevel hno, fun hno => absurd hlevel hno,
    fun hno => absurd hlevel hno⟩

theorem Dispatched.Provided.portLevel {d : Dispatched} (hprovided : d.Provided) :
    d.id ∈ portLevelIds := by
  rcases hprovided with hlist | ⟨hid, -⟩ | ⟨hid, -⟩
  · exact List.mem_append_left _ hlist
  · rw [hid]
    decide
  · rw [hid]
    decide

/-- A settled request is rightly answered unless the ports are cut short. -/
theorem Settled.rightlyAnswered_iff {c : ManagedClock} {ingress : MgmtPort}
    {d : Dispatched} {given : List Answer} (hsettled : Settled c ingress d given)
    (hrequest : isRequest d.action) :
    RightlyAnswered c ingress d given ↔ ¬d.CutShort c ingress := by
  constructor
  · rintro hright ⟨hlevel, hid, hprovided, hmany⟩
    obtain ⟨target, rest, hasked⟩ := List.exists_cons_of_length_pos
      (Nat.lt_of_lt_of_le Nat.zero_lt_two hmany)
    have hports := hright.ports hrequest hlevel hid
      (by rw [hasked]; exact List.cons_ne_nil _ _)
    rw [hsettled.refused hlevel hprovided target rest hasked] at hports
    have hlength := congrArg List.length hports
    simp only [List.length_map, List.length_singleton] at hlength
    omega
  · intro hwhole
    refine ⟨fun _ => hsettled.clock, fun _ hlevel hid hsome => ?_,
      fun _ hlevel hnone => ?_, fun hno => ?_⟩
    · by_cases hprovided : d.Provided
      · exact hsettled.provided hlevel hsome hprovided
      obtain ⟨target, rest, hasked⟩ := List.exists_cons_of_ne_nil hsome
      have hone : rest = [] := by
        by_contra hmore
        refine hwhole ⟨hlevel, hid, hprovided, ?_⟩
        rw [hasked, List.length_cons]
        exact Nat.succ_le_succ (List.length_pos_iff.mpr hmore)
      rw [hsettled.refused hlevel hprovided target rest hasked, hasked, hone]
      rfl
    · rcases hcase : d.matching c with _ | ⟨target, rest⟩
      · exact hsettled.nobody hlevel hcase
      · have hid : d.id ∉ portLevelIds := hnone.resolve_right (by simp [hcase])
        exact ⟨_, _, hsettled.refused hlevel (fun h => hid h.portLevel) target rest
          hcase⟩
    · rw [hrequest] at hno
      exact absurd hno (by decide)

/-! ## Answers of a program -/

section

variable {α β : Type}

/-- What a program returns, and the answers it adds, when it starts with the given
clock. -/
def GivesFrom (c : ManagedClock) (program : Handle α)
    (post : α → List Answer → Prop) : Prop :=
  ∀ handling, handling.clock = c → ∃ given,
    post (Handle.after program handling).1 given ∧
      (Handle.after program handling).2.answers = handling.answers ++ given

/-- The same whatever the clock. -/
def Gives (program : Handle α) (post : α → List Answer → Prop) : Prop :=
  ∀ c, GivesFrom c program post

/-- The program leaves the clock as it is. -/
def KeepsClock (program : Handle α) : Prop :=
  ∀ handling, (Handle.after program handling).2.clock = handling.clock

namespace Gives

variable {post : α → List Answer → Prop}

theorem pure {value : α} (hvalue : post value []) :
    Gives (Pure.pure value : Handle α) post :=
  fun _ _ _ => ⟨[], hvalue, (List.append_nil _).symm⟩

/-- The answers of the two programs one after the other. -/
theorem bind {program : Handle α} {next : α → Handle β}
    {first : α → List Answer → Prop} {post : β → List Answer → Prop}
    (hprogram : Gives program first)
    (hnext : ∀ value given, first value given →
      Gives (next value) fun result more => post result (given ++ more)) :
    Gives (program >>= next) post := by
  intro c handling hclock
  obtain ⟨given, hfirst, hanswers⟩ := hprogram c handling hclock
  obtain ⟨more, hpost, hmore⟩ :=
    hnext _ given hfirst _ (Handle.after program handling).2 rfl
  refine ⟨given ++ more, hpost, ?_⟩
  rw [after_bind, hmore, hanswers, List.append_assoc]

theorem ite {condition : Prop} [Decidable condition] {first second : Handle α}
    (hfirst : condition → Gives first post)
    (hsecond : ¬condition → Gives second post) :
    Gives (if condition then first else second) post := by
  split
  · exact hfirst ‹_›
  · exact hsecond ‹_›

/-- What is given may be described less exactly. -/
theorem mono {weaker : α → List Answer → Prop} {program : Handle α}
    (hprogram : Gives program post)
    (hweaker : ∀ value given, post value given → weaker value given) :
    Gives program weaker := by
  intro c handling hclock
  obtain ⟨given, hpost, hanswers⟩ := hprogram c handling hclock
  exact ⟨given, hweaker _ _ hpost, hanswers⟩

end Gives

/-- The first program leaves the clock for the second one. -/
theorem GivesFrom.bind {c : ManagedClock} {program : Handle α} {next : α → Handle β}
    {first : α → List Answer → Prop} {post : β → List Answer → Prop}
    (hkeeps : KeepsClock program) (hprogram : GivesFrom c program first)
    (hnext : ∀ value given, first value given →
      GivesFrom c (next value) fun result more => post result (given ++ more)) :
    GivesFrom c (program >>= next) post := by
  intro handling hclock
  obtain ⟨given, hfirst, hanswers⟩ := hprogram handling hclock
  obtain ⟨more, hpost, hmore⟩ := hnext _ given hfirst
    (Handle.after program handling).2 ((hkeeps handling).trans hclock)
  refine ⟨given ++ more, hpost, ?_⟩
  rw [after_bind, hmore, hanswers, List.append_assoc]

theorem GivesFrom.ite {c : ManagedClock} {post : α → List Answer → Prop}
    {condition : Prop} [Decidable condition] {first second : Handle α}
    (hfirst : condition → GivesFrom c first post)
    (hsecond : ¬condition → GivesFrom c second post) :
    GivesFrom c (if condition then first else second) post := by
  split
  · exact hfirst ‹_›
  · exact hsecond ‹_›

theorem GivesFrom.get_bind {c : ManagedClock} {next : Handling → Handle β}
    {post : β → List Answer → Prop}
    (hnext : ∀ handling, handling.clock = c → GivesFrom c (next handling) post) :
    GivesFrom c (MonadState.get >>= next) post :=
  fun handling hclock => hnext handling hclock handling hclock

namespace KeepsClock

theorem pure (value : α) : KeepsClock (Pure.pure value : Handle α) :=
  fun _ => rfl

theorem get : KeepsClock (MonadState.get : Handle Handling) :=
  fun _ => rfl

/-- A program keeps the clock if its parts do. -/
theorem bind {program : Handle α} {next : α → Handle β}
    (hprogram : KeepsClock program) (hnext : ∀ value, KeepsClock (next value)) :
    KeepsClock (program >>= next) :=
  fun handling => (hnext _ _).trans (hprogram handling)

theorem ite {condition : Prop} [Decidable condition] {first second : Handle α}
    (hfirst : KeepsClock first) (hsecond : KeepsClock second) :
    KeepsClock (if condition then first else second) := by
  split
  · exact hfirst
  · exact hsecond

end KeepsClock

end

/-! ## Errors and replies -/

theorem clockReply_clockLevel {c : ReportedClock} {subscription : Option Subscription}
    {id : ℕ} (hid : id ∉ clockManagementIds) :
    (MgmtId.ofCode id).bind (clockReply c subscription) = none := by
  rcases hknown : MgmtId.ofCode id with _ | known
  · rfl
  obtain rfl := MgmtId.code_of_ofCode hknown
  cases known
  all_goals first | rfl | exact absurd (by decide) hid

namespace Dispatched

variable {d : Dispatched}

/-- The ports reply to a GET or have its identifier in their list. -/
theorem provided_get {target : ReportedPort} (haction : d.action = some .get) :
    d.Provided ↔ ((MgmtId.ofCode d.id).bind (portReply target)).isSome ∨
      d.id ∈ portManagementIds := by
  simp only [Provided, haction, and_true, ne_eq, reduceCtorEq, not_false_eq_true,
    Option.some.injEq]
  constructor
  · rintro (hlist | hid | hid)
    · exact Or.inr hlist
    · rw [hid]
      exact Or.inl rfl
    · rw [hid]
      exact Or.inl rfl
  · rintro (hreply | hlist)
    · rcases hknown : MgmtId.ofCode d.id with _ | known
      · rw [hknown] at hreply
        exact absurd hreply Bool.false_ne_true
      rw [← MgmtId.code_of_ofCode hknown]
      rw [hknown] at hreply
      cases known
      all_goals first | decide | exact absurd hreply Bool.false_ne_true
    · exact Or.inl hlist

/-- The SET requests that a port answers. -/
theorem provided_set (haction : d.action = some .set) :
    d.Provided ↔ d.id = MgmtId.portDataSetNp.code ∨ d.id ∈ portManagementIds := by
  simp [Provided, haction, or_comm]

theorem provided_command (haction : d.action = some .command) :
    d.Provided ↔ d.id ∈ portManagementIds := by
  simp [Provided, haction]

end Dispatched

section

variable {host : Host} {allocate : ℕ → Bool} {mem : Memory}

theorem readId_keepsClock : KeepsClock (readId host mem) :=
  fun _ => rfl

theorem hasChanged_keepsClock : KeepsClock hasChanged :=
  fun _ => rfl

theorem requestMemory_keepsClock : KeepsClock (requestMemory allocate) :=
  fun _ => rfl

theorem portManagementError_keepsClock (port : ℕ) (error : MgmtError) :
    KeepsClock (portManagementError host allocate mem port error) :=
  .bind requestMemory_keepsClock fun _ =>
    .ite (.bind requestMemory_keepsClock fun _ =>
      .ite (.bind readId_keepsClock fun _ _ => rfl) (.pure _)) (.pure _)

theorem getResponse_keepsClock (port id : ℕ) (reply : Option Reply) :
    KeepsClock (getResponse allocate port id reply) := by
  refine .bind requestMemory_keepsClock fun _ => .ite ?_ (.pure _)
  refine .bind requestMemory_keepsClock fun _ => .ite ?_ (.pure _)
  cases reply with
  | none => exact .pure _
  | some reply => exact fun _ => rfl

theorem clockManagementGetResponse_keepsClock (ingress : MgmtPort) (id : ℕ) :
    KeepsClock (clockManagementGetResponse host allocate mem ingress id) :=
  .bind .get fun _ => getResponse_keepsClock _ _ _

theorem readId_gives : Gives (readId host mem) fun id given =>
    id = managementId host mem ∧ given = [] :=
  fun _ _ _ => ⟨[], ⟨rfl, rfl⟩, (List.append_nil _).symm⟩

/-- Reading the identifier gives no answer. -/
theorem Gives.readId {α : Type} {next : ℕ → Handle α} {post : α → List Answer → Prop}
    (hnext : Gives (next (managementId host mem)) post) :
    Gives (Clock.readId host mem >>= next) post := by
  refine readId_gives.bind ?_
  rintro _ _ ⟨rfl, rfl⟩
  exact hnext

theorem GivesFrom.readId {α : Type} {c : ManagedClock} {next : ℕ → Handle α}
    {post : α → List Answer → Prop}
    (hnext : GivesFrom c (next (managementId host mem)) post) :
    GivesFrom c (Clock.readId host mem >>= next) post := by
  refine .bind readId_keepsClock (readId_gives c) ?_
  rintro _ _ ⟨rfl, rfl⟩
  exact hnext

theorem emptySet_keepsClock : KeepsClock (emptySet host mem) :=
  .ite (.bind readId_keepsClock fun _ => .pure _) (.pure _)

/-- The test for a SET without a body gives no answer. -/
theorem emptySet_gives : Gives (emptySet host mem) fun empty given =>
    empty = decide (managementLength host mem = 2 ∧ managementId host mem ≠ 0) ∧
      given = [] := by
  intro c handling _
  refine ⟨[], ⟨emptySet_value handling, rfl⟩, ?_⟩
  unfold emptySet
  split <;> exact (List.append_nil _).symm

theorem hasChanged_gives : Gives hasChanged fun _ given => given = [] :=
  fun _ _ _ => ⟨[], rfl, (List.append_nil _).symm⟩

variable (hallocate : ∀ n, allocate n = true)
include hallocate

theorem requestMemory_bind {α : Type} (next : Bool → Handle α) (handling : Handling) :
    Handle.after (requestMemory allocate >>= next) handling =
      Handle.after (next true)
        { handling with allocations := handling.allocations + 1 } := by
  rw [after_bind, requestMemory_after, hallocate]

/-- An error is one answer. -/
theorem portManagementError_gives (port : ℕ) (error : MgmtError) :
    Gives (portManagementError host allocate mem port error) fun _ given =>
      given = [.error port error (managementId host mem)] := by
  intro c handling _
  refine ⟨_, rfl, ?_⟩
  unfold portManagementError
  rw [requestMemory_bind hallocate, if_pos rfl, requestMemory_bind hallocate]
  rfl

/-- An error, and what has changed before it. -/
theorem portManagementError_changed_gives (port : ℕ) (error : MgmtError) :
    Gives (do portManagementError host allocate mem port error; hasChanged)
      fun _ given => given = [.error port error (managementId host mem)] := by
  refine (portManagementError_gives hallocate port error).bind ?_
  rintro _ _ rfl
  exact hasChanged_gives.mono fun _ _ hnil => by rw [hnil, List.append_nil]

/-- A response is one answer, where there is one. -/
theorem getResponse_gives (port id : ℕ) (reply : Option Reply) :
    Gives (getResponse allocate port id reply) fun answered given =>
      answered = reply.isSome ∧
        given = (reply.map (Answer.dataSet port id)).toList := by
  intro c handling _
  unfold getResponse
  rw [requestMemory_bind hallocate, if_pos rfl, requestMemory_bind hallocate]
  cases reply with
  | none => exact ⟨_, ⟨rfl, rfl⟩, (List.append_nil _).symm⟩
  | some reply => exact ⟨_, ⟨rfl, rfl⟩, rfl⟩

/-! ## Ports -/

/-- What `port_manage` returns and answers for a port that is meant. -/
structure PortAnswer (known : Prop) (port id : ℕ) (res : ℤ) (given : List Answer) :
    Prop where
  answered : known → res = 1 ∧ given.map Answer.port = [port]
  refused : ¬known → res = -1 ∧ given = [.error port .noSuchId id]

omit hallocate in
theorem PortAnswer.congr {known known' : Prop} {port id : ℕ} {res : ℤ}
    {given : List Answer} (hanswer : PortAnswer known port id res given)
    (hiff : known' ↔ known) : PortAnswer known' port id res given :=
  ⟨fun hknown => hanswer.answered (hiff.mp hknown), fun hknown =>
    hanswer.refused fun hknown' => hknown (hiff.mpr hknown')⟩

/-- A port answers the identifiers it knows. -/
theorem portManageRest_gives (target : ReportedPort) :
    Gives (portManageRest host allocate mem target)
      (PortAnswer (managementId host mem ∈ portManagementIds) target.number
        (managementId host mem)) := by
  refine .readId (.ite (fun hid => ?_) fun hid => ?_)
  · refine (portManagementError_gives hallocate _ _).bind ?_
    rintro _ _ rfl
    exact .pure ⟨fun _ => ⟨rfl, rfl⟩, fun hno => absurd hid hno⟩
  · refine (portManagementError_gives hallocate _ _).bind ?_
    rintro _ _ rfl
    exact .pure ⟨fun hyes => absurd hyes hid, fun _ => ⟨rfl, rfl⟩⟩

omit hallocate in
/-- To set a port gives no answer. -/
theorem portSet_gives (target : ReportedPort) (known : Option MgmtId) :
    Gives (portSet host mem target known) fun updated given =>
      updated.number = target.number ∧ given = [] := by
  intro c handling _
  rcases known with _ | known
  · exact ⟨[], ⟨rfl, rfl⟩, (List.append_nil _).symm⟩
  · cases known <;> exact ⟨[], ⟨rfl, rfl⟩, (List.append_nil _).symm⟩

theorem portManagementSet_gives (target : ReportedPort) (id : ℕ) :
    Gives (portManagementSet host allocate mem target id) fun answered given =>
      answered = decide (id = MgmtId.portDataSetNp.code) ∧
        given.map Answer.port = if answered then [target.number] else [] := by
  refine (portSet_gives target _).bind ?_
  rintro updated _ ⟨hnumber, rfl⟩
  refine .ite (fun hid => ?_) fun hid => ?_
  · have hcode : id = MgmtId.portDataSetNp.code :=
      (MgmtId.code_of_ofCode hid).symm
    refine (getResponse_gives hallocate _ _ _).bind ?_
    rintro _ _ ⟨-, rfl⟩
    refine .pure ⟨(decide_eq_true hcode).symm, ?_⟩
    rw [hid, Option.bind_some, portReply]
    simp only [Option.map_some, Option.toList_some, List.append_nil, List.nil_append,
      List.map_cons, List.map_nil, Answer.port, hnumber, if_true]
  · have hcode : id ≠ MgmtId.portDataSetNp.code := by
      rintro rfl
      exact hid (by decide)
    exact .pure ⟨(decide_eq_false hcode).symm, rfl⟩

omit hallocate in
/-- A port that is not meant. -/
theorem portManage_other {target : ReportedPort} (handling : Handling)
    (hother : (dispatched host mem).meant target = false) :
    Handle.after (portManage host allocate mem target) handling = (0, handling) := by
  have hnumber : hostWord host.endian mem TargetPort.portNumber.offset 2 ≠
      target.number ∧
        hostWord host.endian mem TargetPort.portNumber.offset 2 ≠ 0xffff := by
    simpa [Dispatched.meant, dispatched] using hother
  unfold portManage
  rw [if_pos hnumber]
  rfl

/-- A port that is meant. -/
theorem portManage_gives {target : ReportedPort}
    (hrequest : isRequest (managementAction mem))
    (hmeant : (dispatched host mem).meant target) :
    Gives (portManage host allocate mem target)
      (PortAnswer (dispatched host mem).Provided target.number
        (managementId host mem)) := by
  have hnumber : ¬(hostWord host.endian mem TargetPort.portNumber.offset 2 ≠
      target.number ∧
        hostWord host.endian mem TargetPort.portNumber.offset 2 ≠ 0xffff) := by
    intro hother
    simp [Dispatched.meant, dispatched, hother.1, hother.2] at hmeant
  unfold portManage
  rw [if_neg hnumber]
  rcases haction : managementAction mem with _ | action
  · rw [haction] at hrequest
    exact absurd hrequest (by decide)
  cases action with
  | response | acknowledge =>
    rw [haction] at hrequest
    exact absurd hrequest (by decide)
  | get =>
    have hprovided := @Dispatched.provided_get (dispatched host mem) target haction
    refine .readId ((getResponse_gives hallocate _ _ _).bind ?_)
    rintro _ _ ⟨rfl, rfl⟩
    refine .ite (fun hreply => ?_) fun hreply => ?_
    · obtain ⟨reply, hsome⟩ := Option.isSome_iff_exists.mp hreply
      refine .pure ⟨fun _ => ⟨rfl, ?_⟩, fun hno =>
        absurd (hprovided.mpr (Or.inl hreply)) hno⟩
      rw [hsome]
      rfl
    · rw [Option.not_isSome_iff_eq_none.mp hreply]
      exact (portManageRest_gives hallocate target).mono fun _ _ hrest =>
        hrest.congr (hprovided.trans (or_iff_right hreply))
  | set =>
    have hprovided := @Dispatched.provided_set (dispatched host mem) haction
    refine .readId ((portManagementSet_gives hallocate _ _).bind ?_)
    rintro _ given ⟨rfl, hgiven⟩
    refine .ite (fun hid => ?_) fun hid => ?_
    · rw [if_pos hid] at hgiven
      refine .pure ⟨fun _ => ⟨rfl, ?_⟩, fun hno =>
        absurd (hprovided.mpr (Or.inl (of_decide_eq_true hid))) hno⟩
      rw [List.append_nil, hgiven]
    · rw [if_neg hid, List.map_eq_nil_iff] at hgiven
      rw [hgiven]
      exact (portManageRest_gives hallocate target).mono fun _ _ hrest =>
        hrest.congr (hprovided.trans (or_iff_right fun hcode =>
          hid (decide_eq_true hcode)))
  | command =>
    exact (portManageRest_gives hallocate target).mono fun _ _ hrest =>
      hrest.congr (Dispatched.provided_command haction)

/-- The same for the loop over the ports, which has counted some answers before. -/
structure PortsAnswer (known : Prop) (asked : List ReportedPort) (id answers : ℕ)
    (res : Option ℕ) (given : List Answer) : Prop where
  answered : known → res = some (answers + asked.length) ∧
    given.map Answer.port = asked.map ReportedPort.number
  idle : asked = [] → res = some answers ∧ given = []
  refused : ¬known → ∀ target rest, asked = target :: rest →
    res = none ∧ given = [.error target.number .noSuchId id]

/-- Every port that matches gives its answer. -/
theorem managePorts_gives (hrequest : isRequest (managementAction mem))
    (targets : List ReportedPort) (answers : ℕ) :
    Gives (managePorts host allocate mem targets answers)
      (PortsAnswer (dispatched host mem).Provided
        (targets.filter (dispatched host mem).meant) (managementId host mem)
        answers) := by
  induction targets generalizing answers with
  | nil =>
    exact .pure ⟨fun _ => ⟨rfl, rfl⟩, fun _ => ⟨rfl, rfl⟩, fun _ _ _ hnil =>
      absurd hnil (List.cons_ne_nil _ _).symm⟩
  | cons target rest ih =>
    rw [managePorts]
    by_cases hmeant : (dispatched host mem).meant target = true
    · rw [List.filter_cons_of_pos hmeant]
      refine (portManage_gives hallocate hrequest hmeant).bind fun res given hport => ?_
      by_cases hknown : (dispatched host mem).Provided
      · obtain ⟨rfl, hgiven⟩ := hport.answered hknown
        rw [if_neg (by decide), if_pos (by decide)]
        refine (ih (answers + 1)).mono fun res more hmore => ⟨fun _ => ?_, ?_, ?_⟩
        · obtain ⟨hres, hmap⟩ := hmore.answered hknown
          refine ⟨?_, ?_⟩
          · rw [hres, List.length_cons, Nat.add_assoc, Nat.add_comm 1]
          · rw [List.map_append, hgiven, hmap, List.map_cons, List.singleton_append]
        · exact fun hnil => absurd hnil (List.cons_ne_nil _ _)
        · exact fun hno => absurd hknown hno
      · obtain ⟨rfl, rfl⟩ := hport.refused hknown
        rw [if_pos (by decide)]
        refine .pure ⟨fun hyes => absurd hyes hknown, fun hnil =>
          absurd hnil (List.cons_ne_nil _ _), fun _ first others hfirst => ⟨rfl, ?_⟩⟩
        rw [(List.cons.inj hfirst).1]
        rfl
    · rw [List.filter_cons_of_neg hmeant]
      have hother : Gives (portManage host allocate mem target) fun res given =>
          res = 0 ∧ given = [] := fun _ handling _ => ⟨[], by
        rw [portManage_other handling (Bool.eq_false_iff.mpr hmeant)]
        exact ⟨⟨rfl, rfl⟩, (List.append_nil _).symm⟩⟩
      refine hother.bind ?_
      rintro _ _ ⟨rfl, rfl⟩
      rw [if_neg (by decide), if_neg (by decide)]
      exact ih answers

/-! ## The clock -/

/-- A request for the clock gets one answer, one for its ports theirs. -/
theorem manageById_gives {c : ManagedClock} {ingress : MgmtPort}
    (hrequest : isRequest (managementAction mem))
    (hlevel : (dispatched host mem).ClockLevel c ingress →
      managementId host mem ∈ clockManagementIds) :
    GivesFrom c (manageById host allocate mem ingress) fun _ =>
      Settled c ingress (dispatched host mem) := by
  refine .readId (.ite (fun hid => ?_) fun hid => ?_)
  · refine ((portManagementError_changed_gives hallocate _ _).mono ?_) c
    rintro _ _ rfl
    exact .clockLevel (Or.inr (Or.inr hid)) rfl
  have hports : ¬(dispatched host mem).ClockLevel c ingress := fun h => hid (hlevel h)
  refine .get_bind fun handling hclock => ?_
  rw [hclock]
  refine (Gives.bind (managePorts_gives hallocate hrequest c.clkPorts 0) ?_) c
  intro res given hanswer
  refine .ite (fun hres => ?_) fun hres => ?_
  · have hnobody : (dispatched host mem).matching c = [] := by
      rcases hasked : (dispatched host mem).matching c with _ | ⟨target, rest⟩
      · rfl
      by_cases hknown : (dispatched host mem).Provided
      · have hcount := (hanswer.answered hknown).1.symm.trans hres
        rw [← Dispatched.matching, hasked] at hcount
        simp at hcount
      · exact absurd ((hanswer.refused hknown target rest hasked).1.symm.trans hres)
          (by simp)
    obtain ⟨-, rfl⟩ := hanswer.idle hnobody
    refine (portManagementError_changed_gives hallocate _ _).mono ?_
    rintro _ _ rfl
    exact ⟨fun hyes => absurd hyes hports, fun _ hsome => absurd hnobody hsome,
      fun _ _ target rest hasked => absurd (hnobody.symm.trans hasked) (by simp),
      fun _ _ => ⟨_, _, rfl⟩⟩
  · refine hasChanged_gives.mono ?_
    rintro _ _ rfl
    rw [List.append_nil]
    exact ⟨fun hyes => absurd hyes hports, fun _ _ hknown =>
      (hanswer.answered hknown).2, fun _ hno target rest hasked =>
      (hanswer.refused hno target rest hasked).2,
      fun _ hnobody => absurd (hanswer.idle hnobody).1 hres⟩

/-- So does every request that is not a SET without a body. -/
theorem manageRest_gives {c : ManagedClock} {ingress : MgmtPort}
    (hrequest : isRequest (managementAction mem))
    (hset : managementAction mem = some .set →
      (managementLength host mem ≠ 2 ∨ managementId host mem = 0) ∧
        ingress.number = c.udsPort.number) :
    GivesFrom c (manageRest host allocate mem ingress) fun _ =>
      Settled c ingress (dispatched host mem) := by
  refine .get_bind fun handling hclock => .readId ?_
  rw [hclock]
  refine .ite (fun hfar => ?_) fun hnear => ?_
  · refine (Gives.bind (portManagementError_gives hallocate _ _) ?_) c
    rintro _ _ rfl
    exact .pure (.clockLevel (Or.inr (Or.inl hfar)) rfl)
  · refine manageById_gives hallocate hrequest ?_
    rintro (⟨haction, hbody⟩ | hfar | hid)
    · obtain ⟨hlong, huds⟩ := hset haction
      rcases hbody with ⟨hlength, hid⟩ | hother
      · exact absurd hid (not_not.mpr (hlong.resolve_left (not_not.mpr hlength)))
      · exact absurd huds hother
    · exact absurd hfar hnear
    · exact hid

/-- The clock answers with one data set, or not at all. -/
theorem clockManagementGetResponse_gives (ingress : MgmtPort) (id : ℕ) :
    Gives (clockManagementGetResponse host allocate mem ingress id)
      fun answered given =>
        (answered → id ∈ clockManagementIds ∧ given.length = 1) ∧
          (answered = false → given = []) := by
  intro c
  refine .get_bind fun handling hclock => ?_
  refine ((getResponse_gives hallocate _ _ _).mono ?_) c
  rintro _ _ ⟨rfl, rfl⟩
  refine ⟨fun hsome => ⟨?_, ?_⟩, fun hnone => ?_⟩
  · by_contra hid
    rw [clockReply_clockLevel hid] at hsome
    exact absurd hsome (by decide)
  · obtain ⟨reply, hreply⟩ := Option.isSome_iff_exists.mp hsome
    rw [hreply]
    rfl
  · rw [Option.isSome_eq_false_iff, Option.isNone_iff_eq_none] at hnone
    rw [hnone]
    rfl

theorem clockManagementGetResponse_replies (ingress : MgmtPort) {id : ℕ}
    (hreply : ∀ c subscription,
      ((MgmtId.ofCode id).bind (clockReply c subscription)).isSome) :
    Gives (clockManagementGetResponse host allocate mem ingress id)
      fun _ given => given.length = 1 := by
  intro c
  refine .get_bind fun handling hclock => ?_
  refine ((getResponse_gives hallocate _ _ _).mono ?_) c
  rintro _ _ ⟨-, rfl⟩
  obtain ⟨reply, hsome⟩ := Option.isSome_iff_exists.mp
    (hreply handling.clock.reported
      (if ingress.number = handling.clock.udsPort.number then
        some (clockGetSubscription host mem handling.clock) else none))
  rw [hsome]
  rfl

theorem clockUpdateSubscription_gives :
    Gives (clockUpdateSubscription host allocate mem) fun _ given => given = [] := by
  intro c handling _
  refine ⟨[], rfl, ?_⟩
  rw [List.append_nil, clockUpdateSubscription, after_bind, after_get]
  dsimp only
  generalize requestedSubscriber host mem = subscriber
  cases List.findIdx? (fromRequester host mem) handling.clock.subscribers with
  | some i => rfl
  | none =>
    dsimp only
    split
    · rfl
    · rw [requestMemory_bind hallocate]
      rfl

/-- The clock applies the data and replies, or it leaves everything as it is. -/
theorem clockManagementSet_cases (ingress : MgmtPort) (id : ℕ) :
    clockManagementSet host allocate mem ingress id = pure false ∨
      id ∈ clockManagementIds ∧
        Gives (clockManagementSet host allocate mem ingress id) fun answered given =>
          answered = true ∧ given.length = 1 := by
  have hanswer : ∀ known, MgmtId.ofCode id = some known →
      (∀ c subscription, (clockReply c subscription known).isSome) →
      Gives (clockSet host allocate mem (some known)) (fun respond given =>
        respond = true ∧ given = []) →
      Gives (clockManagementSet host allocate mem ingress id) fun answered given =>
        answered = true ∧ given.length = 1 := by
    intro known hknown hreply hset
    unfold clockManagementSet
    rw [hknown]
    refine hset.bind ?_
    rintro _ _ ⟨rfl, rfl⟩
    rw [if_pos rfl]
    refine Gives.bind (clockManagementGetResponse_replies hallocate ingress fun c sub => ?_)
      fun _ given hone => .pure ⟨rfl, by simpa using hone⟩
    rw [hknown]
    exact hreply c sub
  rcases hknown : MgmtId.ofCode id with _ | known
  · left
    unfold clockManagementSet
    rw [hknown]
    rfl
  have hcode := MgmtId.code_of_ofCode hknown
  cases known with
  | priority1 | priority2 | grandmasterSettingsNp =>
    refine Or.inr ⟨hcode ▸ by decide, hanswer _ hknown (fun _ _ => rfl) ?_⟩
    exact fun _ _ _ => ⟨[], ⟨rfl, rfl⟩, (List.append_nil _).symm⟩
  | subscribeEventsNp =>
    refine Or.inr ⟨hcode ▸ by decide, hanswer _ hknown (fun _ _ => rfl) ?_⟩
    have huse : Gives (use (.data SubscribeEventsNp.size)) fun _ given => given = [] :=
      fun _ _ _ => ⟨[], rfl, (List.append_nil _).symm⟩
    refine huse.bind ?_
    rintro _ _ rfl
    refine (clockUpdateSubscription_gives hallocate).bind ?_
    rintro _ _ rfl
    exact .pure ⟨rfl, rfl⟩
  | _ =>
    left
    unfold clockManagementSet
    rw [hknown]
    rfl

/-- A SET is answered, and refused where it has no body. -/
theorem manageSet_gives {c : ManagedClock} {ingress : MgmtPort}
    (haction : managementAction mem = some .set) :
    GivesFrom c (manageSet host allocate mem ingress
        (decide (managementLength host mem = 2 ∧ managementId host mem ≠ 0)))
      fun _ => Settled c ingress (dispatched host mem) := by
  refine .get_bind fun handling hclock => .ite (fun hempty => ?_) fun hbody => ?_
  · refine ((portManagementError_changed_gives hallocate _ _).mono ?_) c
    rintro _ _ rfl
    exact .clockLevel (Or.inl ⟨haction, Or.inl (of_decide_eq_true hempty)⟩) rfl
  rw [hclock]
  refine .ite (fun hfar => ?_) fun huds => ?_
  · refine ((portManagementError_changed_gives hallocate _ _).mono ?_) c
    rintro _ _ rfl
    exact .clockLevel (Or.inl ⟨haction, Or.inr hfar⟩) rfl
  refine .readId ?_
  rcases clockManagementSet_cases hallocate ingress (managementId host mem) with
    hrefuses | ⟨hid, hanswers⟩
  · rw [hrefuses]
    refine manageRest_gives hallocate ?_ fun _ => ⟨?_, not_not.mp huds⟩
    · rw [haction]
      rfl
    · by_contra hboth
      push Not at hboth
      exact hbody (decide_eq_true hboth)
  · refine (hanswers.bind ?_) c
    rintro _ given ⟨rfl, hone⟩
    rw [if_pos rfl]
    refine hasChanged_gives.mono ?_
    rintro _ _ rfl
    rw [List.append_nil]
    exact .clockLevel (Or.inr (Or.inr hid)) hone

/-- A request is settled. -/
theorem manageAction_gives {c : ManagedClock} {ingress : MgmtPort}
    (hrequest : isRequest (managementAction mem)) :
    GivesFrom c (manageAction host allocate mem ingress) fun _ =>
      Settled c ingress (dispatched host mem) := by
  unfold manageAction
  rcases haction : managementAction mem with _ | action
  · rw [haction] at hrequest
    exact absurd hrequest (by decide)
  cases action with
  | response | acknowledge =>
    rw [haction] at hrequest
    exact absurd hrequest (by decide)
  | get =>
    refine .readId (.bind (clockManagementGetResponse_keepsClock _ _)
      (clockManagementGetResponse_gives hallocate _ _ c) ?_)
    rintro answered given ⟨hyes, hno⟩
    refine .ite (fun hanswered => ?_) fun hanswered => ?_
    · obtain ⟨hid, hone⟩ := hyes hanswered
      refine (hasChanged_gives.mono ?_) c
      rintro _ _ rfl
      rw [List.append_nil]
      exact .clockLevel (Or.inr (Or.inr hid)) hone
    · rw [hno (Bool.eq_false_iff.mpr hanswered)]
      refine manageRest_gives hallocate hrequest fun hset => ?_
      exact absurd (haction.symm.trans hset) (by decide)
  | set =>
    refine .bind emptySet_keepsClock (emptySet_gives c) ?_
    rintro _ _ ⟨rfl, rfl⟩
    exact manageSet_gives hallocate haction
  | command =>
    refine manageRest_gives hallocate hrequest fun hset => ?_
    exact absurd (haction.symm.trans hset) (by decide)

omit hallocate in
/-- Any other message is not answered. -/
theorem manageAction_idle {ingress : MgmtPort}
    (hrequest : isRequest (managementAction mem) = false) :
    manageAction host allocate mem ingress = hasChanged := by
  unfold manageAction
  rcases haction : managementAction mem with _ | action
  · rfl
  rw [haction] at hrequest
  cases action with
  | response | acknowledge => rfl
  | get | set | command => exact absurd hrequest (by decide)

end

/-! ## What remote messages change -/

section

variable {host : Host} {allocate : ℕ → Bool} {mem : Memory}

theorem portManageRest_keepsClock (target : ReportedPort) :
    KeepsClock (portManageRest host allocate mem target) :=
  .bind readId_keepsClock fun _ =>
    .ite (.bind (portManagementError_keepsClock _ _) fun _ => .pure _)
      (.bind (portManagementError_keepsClock _ _) fun _ => .pure _)

theorem portManage_keepsClock (target : ReportedPort)
    (hset : managementAction mem ≠ some .set) :
    KeepsClock (portManage host allocate mem target) := by
  refine .ite (.pure _) ?_
  rcases haction : managementAction mem with _ | action
  · exact .pure _
  cases action with
  | get =>
    exact .bind readId_keepsClock fun _ => .bind (getResponse_keepsClock _ _ _) fun _ =>
      .ite (.pure _) (portManageRest_keepsClock target)
  | set => exact absurd haction hset
  | command => exact portManageRest_keepsClock target
  | response | acknowledge => exact .pure _

/-- A GET changes no port. -/
theorem managePorts_keepsClock (hset : managementAction mem ≠ some .set)
    (targets : List ReportedPort) (answers : ℕ) :
    KeepsClock (managePorts host allocate mem targets answers) := by
  induction targets generalizing answers with
  | nil => exact .pure _
  | cons target rest ih =>
    exact .bind (portManage_keepsClock target hset) fun _ => .ite (.pure _) (ih _)

theorem portManagementError_changed_keepsClock (port : ℕ) (error : MgmtError) :
    KeepsClock (do portManagementError host allocate mem port error; hasChanged) :=
  .bind (portManagementError_keepsClock port error) fun _ => hasChanged_keepsClock

/-- Only a SET changes the clock. -/
theorem manageRest_keepsClock (ingress : MgmtPort)
    (hset : managementAction mem ≠ some .set) :
    KeepsClock (manageRest host allocate mem ingress) := by
  refine .bind .get fun _ => .bind readId_keepsClock fun _ => .ite ?_ ?_
  · exact .bind (portManagementError_keepsClock _ _) fun _ => .pure _
  refine .bind readId_keepsClock fun _ =>
    .ite (portManagementError_changed_keepsClock _ _) (.bind .get fun _ => ?_)
  exact .bind (managePorts_keepsClock hset _ _) fun _ =>
    .ite (portManagementError_changed_keepsClock _ _) hasChanged_keepsClock

/-- A SET that is not from a local client changes nothing. -/
theorem manageSet_clock {ingress : MgmtPort} {handling : Handling} (empty : Bool)
    (hfar : ingress.number ≠ handling.clock.udsPort.number) :
    (Handle.after (manageSet host allocate mem ingress empty) handling).2.clock =
      handling.clock := by
  unfold manageSet
  rw [after_bind, after_get]
  dsimp only
  split
  · exact portManagementError_changed_keepsClock _ _ handling
  · exact portManagementError_changed_keepsClock _ _ handling

/-- A message from afar changes nothing. -/
theorem manageAction_clock {ingress : MgmtPort} {handling : Handling}
    (hfar : ingress.number ≠ handling.clock.udsPort.number) :
    (Handle.after (manageAction host allocate mem ingress) handling).2.clock =
      handling.clock := by
  by_cases haction : managementAction mem = some .set
  · have hempty := @emptySet_keepsClock host mem handling
    unfold manageAction
    rw [haction]
    dsimp only
    rw [after_bind, ← hempty]
    exact manageSet_clock _ (by rw [hempty]; exact hfar)
  · refine (?_ : KeepsClock _) handling
    unfold manageAction
    rcases haction' : managementAction mem with _ | action
    · exact hasChanged_keepsClock
    cases action with
    | get =>
      exact .bind readId_keepsClock fun _ =>
        .bind (clockManagementGetResponse_keepsClock _ _) fun _ =>
          .ite hasChanged_keepsClock (manageRest_keepsClock ingress haction)
    | set => exact absurd haction' haction
    | command => exact manageRest_keepsClock ingress haction
    | response | acknowledge => exact hasChanged_keepsClock

end

end LinuxPtp.Clock
