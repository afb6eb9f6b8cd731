import LinuxPtp.Bmc.Ageing
import LinuxPtp.Ordinary.Handlers

/-!
# The window of foreign master qualification

A port counts the Announces of each master that it hears.  The records are kept here as
the source keeps them, with a counter beside each list, through the functions that insert
and remove messages: reception, the election among the records, a receipt timeout and the
disabling of the port.  Where one would follow a null pointer it has no result.
-/

namespace LinuxPtp.Qualification

open Bmc Port Wire
open Ordinary (announceDiffers freshDataset)

/-! ## Records -/

/-- `struct foreign_clock` at its address, with the messages from the newest on. -/
structure Record where
  address : ℕ
  nMessages : ℕ
  messages : List Announce
  dataset : Dataset
  deriving DecidableEq, Repr

/-- What a port keeps of its masters; the next record gets the address `mallocs`. -/
structure Masters where
  portIdentity : PortIdentity
  localPriority : UInt8
  masterOnly : Bool
  records : List Record
  best : Option ℕ
  mallocs : ℕ
  deriving DecidableEq, Repr

/-- What `announce_to_dataset` reads of the port. -/
def Masters.port (t : Masters) : BmcPort :=
  ⟨t.portIdentity, t.localPriority, t.masterOnly, []⟩

def decrement (n : ℕ) : ℕ := (n + (2 ^ 32 - 1)) % 2 ^ 32

def increment (n : ℕ) : ℕ := (n + 1) % 2 ^ 32

/-- The loop of `fc_clear`, on the messages from the oldest on. -/
def clearLoop : ℕ → List Announce → Option (List Announce)
  | 0, messages => some messages
  | _ + 1, [] => none
  | n + 1, _ :: rest => clearLoop n rest

def fcClear (fc : Record) : Option Record :=
  (clearLoop fc.nMessages fc.messages.reverse).map fun rest =>
    { fc with nMessages := 0, messages := rest.reverse }

/-- The first loop of `fc_prune`, on the messages from the oldest on. -/
def trimLoop : ℕ → List Announce → Option (ℕ × List Announce)
  | n, [] => if foreignMasterThreshold < n then none else some (n, [])
  | n, oldest :: rest =>
      if foreignMasterThreshold < n then trimLoop (decrement n) rest
      else some (n, oldest :: rest)

/-- The second loop of `fc_prune`, on the messages from the oldest on. -/
def ageLoop (current : Announce → Bool) : ℕ → List Announce → ℕ × List Announce
  | n, [] => (n, [])
  | n, oldest :: rest =>
      if current oldest then (n, oldest :: rest)
      else ageLoop current (decrement n) rest

def fcPrune (host : BmcHost) (now : Timespec) (fc : Record) : Option Record :=
  (trimLoop fc.nMessages fc.messages.reverse).map fun (n, messages) =>
    let (n, messages) := ageLoop (msgCurrent host now) n messages
    { fc with nMessages := n, messages := messages.reverse }

/-! ## Reception -/

def msgSourceEqual (m : Announce) (fc : Record) : Bool :=
  m.sourcePortIdentity = fc.dataset.sender

def findRecord (address : ℕ) (records : List Record) : Option Record :=
  records.find? fun fc => fc.address = address

def setRecord (fc : Record) (records : List Record) : List Record :=
  records.map fun old => if old.address = fc.address then fc else old

def addRecord (sender : PortIdentity) (t : Masters) : Masters :=
  { t with
    records := ⟨t.mallocs, 0, [], freshDataset sender⟩ :: t.records
    mallocs := t.mallocs + 1 }

def insertMessage (m : Announce) (fc : Record) : Record :=
  { fc with nMessages := increment fc.nMessages, messages := m :: fc.messages }

/-- Whether the first message differs from the second, where there is more than one. -/
def changed (m : Announce) (fc : Record) : Option Bool :=
  if 1 < fc.nMessages then fc.messages[1]?.map (announceDiffers m) else some false

/-- `_addForeignMaster`, given whether there is memory. -/
def addForeignMaster (host : BmcHost) (now : Timespec) (memory : Bool) (m : Announce)
    (t : Masters) : Option (Bool × Masters) :=
  match t.records.find? (msgSourceEqual m) with
  | none => some (false, if memory then addRecord m.sourcePortIdentity t else t)
  | some fc => do
      let fc ← fcPrune host now fc
      let brokeThreshold : Bool := fc.nMessages = foreignMasterThreshold - 1
      let fc := insertMessage m fc
      let diff ← changed m fc
      pure (brokeThreshold || diff, { t with records := setRecord fc t.records })

/-- `_updateCurrentMaster`, as far as it concerns the records. -/
def updateCurrentMaster (host : BmcHost) (now : Timespec) (memory : Bool) (m : Announce)
    (t : Masters) : Option (Bool × Masters) := do
  let fc ← t.best.bind fun best => findRecord best t.records
  if !msgSourceEqual m fc then addForeignMaster host now memory m t
  else do
    let fc ← fcPrune host now fc
    let fc := insertMessage m fc
    let diff ← changed m fc
    pure (diff, { t with records := setRecord fc t.records })

def portMsgProAnnounce (host : BmcHost) (now : Timespec) (memory : Bool)
    (state : PortState) (m : Announce) (t : Masters) : Option (Bool × Masters) :=
  if 255 ≤ m.stepsRemoved.toNat then some (false, t)
  else
    match state with
    | .initializing | .faulty | .disabled => some (false, t)
    | .listening | .preMaster | .master | .grandMaster =>
        addForeignMaster host now memory m t
    | .passive | .uncalibrated | .slave => updateCurrentMaster host now memory m t

/-! ## Election, timeout and disabling -/

/-- The body of the loop of `port_compute_best`: the record as it is left, and the best
one so far. -/
def visit (host : BmcHost) (compare : Option Dataset → Option Dataset → ℤ)
    (port : BmcPort) (now : Timespec) (best : Option Record) (fc : Record) :
    Option (Record × Option Record) :=
  match fc.messages with
  | [] => some (fc, best)
  | newest :: _ => do
      let fc ← fcPrune host now { fc with dataset := announceToDataset newest port }
      if fc.nMessages < foreignMasterThreshold then pure (fc, best)
      else if ∀ held ∈ best, 0 < compare (some fc.dataset) (some held.dataset) then
        pure (fc, some fc)
      else do
        let fc ← fcClear fc
        pure (fc, best)

/-- The loop of `port_compute_best`, with the readings of the clock. -/
def bestLoop (host : BmcHost) (compare : Option Dataset → Option Dataset → ℤ)
    (port : BmcPort) (readings : ℕ → Timespec) :
    ℕ → Option Record → List Record → Option (List Record × Option Record)
  | _, best, [] => some ([], best)
  | taken, best, fc :: rest => do
      let (fc, best) ← visit host compare port (readings taken) best fc
      let (rest, best) ← bestLoop host compare port readings (taken + 1) best rest
      pure (fc :: rest, best)

def portComputeBest (host : BmcHost) (compare : Option Dataset → Option Dataset → ℤ)
    (readings : ℕ → Timespec) (t : Masters) : Option Masters :=
  if t.masterOnly then some { t with best := none }
  else
    (bestLoop host compare t.port readings 0 none t.records).map fun (records, best) =>
      { t with records := records, best := best.map Record.address }

/-- The receipt timers, as far as they concern the records. -/
def receiptTimeout (t : Masters) : Option Masters :=
  match t.best with
  | none => some t
  | some best => do
      let fc ← findRecord best t.records
      let fc ← fcClear fc
      pure { t with records := setRecord fc t.records }

/-- `portOpDisable`, as far as it concerns the records. -/
def portOpDisable (t : Masters) : Option Masters :=
  (t.records.mapM fcClear).map fun _ => { t with records := [], best := none }

/-! ## The loops -/

section Loops

variable {n : ℕ} {l : List Announce} {host : BmcHost} {now : Timespec} {fc : Record}

theorem decrement_succ (hn : n < 2 ^ 32) (hpos : 0 < n) : decrement n = n - 1 := by
  unfold decrement
  omega

theorem clearLoop_length : clearLoop l.length l = some [] := by
  induction l with
  | nil => rfl
  | cons oldest rest ih => exact ih

theorem trimLoop_length (hsize : l.length < 2 ^ 32) :
    trimLoop l.length l =
      some (min l.length foreignMasterThreshold,
        l.drop (l.length - foreignMasterThreshold)) := by
  induction l with
  | nil => rfl
  | cons oldest rest ih =>
    rw [List.length_cons] at hsize
    rw [trimLoop, List.length_cons]
    split
    case isTrue hmany =>
      rw [decrement_succ hsize (by omega), Nat.add_sub_cancel, ih (by omega),
        Nat.succ_sub (by omega), List.drop_succ_cons, min_eq_right (by omega),
        min_eq_right (by omega)]
    case isFalse hfew =>
      rw [min_eq_left (by omega), Nat.sub_eq_zero_of_le (by omega), List.drop_zero]

theorem ageLoop_length {current : Announce → Bool} (hsize : l.length < 2 ^ 32) :
    ageLoop current l.length l =
      ((l.dropWhile fun m => !current m).length, l.dropWhile fun m => !current m) := by
  induction l with
  | nil => rfl
  | cons oldest rest ih =>
    rw [List.length_cons] at hsize
    rw [ageLoop, List.length_cons, List.dropWhile_cons]
    cases current oldest with
    | true => rfl
    | false =>
      rw [decrement_succ hsize (by omega), Nat.add_sub_cancel]
      exact ih (by omega)

/-- A record whose counter is right is pruned as the election sees it. -/
theorem fcPrune_eq (hcount : fc.nMessages = fc.messages.length)
    (hsize : fc.messages.length < 2 ^ 32) :
    fcPrune host now fc =
      some { fc with
        nMessages := (Bmc.fcPrune host now fc.messages).length
        messages := Bmc.fcPrune host now fc.messages } := by
  have hlength : fc.messages.length = fc.messages.reverse.length :=
    fc.messages.length_reverse.symm
  have htaken : fc.messages.reverse.drop (fc.messages.length - foreignMasterThreshold) =
      (fc.messages.take foreignMasterThreshold).reverse :=
    List.reverse_take.symm
  have hmin : min fc.messages.length foreignMasterThreshold =
      (fc.messages.take foreignMasterThreshold).reverse.length := by
    rw [List.length_reverse, List.length_take, min_comm]
  rw [fcPrune, hcount]
  conv_lhs => rw [hlength]
  rw [trimLoop_length (by omega), Option.map_some, ← hlength, htaken, hmin]
  simp only
  rw [ageLoop_length (by rw [List.length_reverse, List.length_take]; omega)]
  simp only [Bmc.fcPrune, List.rdropWhile, List.length_reverse]

theorem fcClear_eq (hcount : fc.nMessages = fc.messages.length) :
    fcClear fc = some { fc with nMessages := 0, messages := [] } := by
  rw [fcClear, hcount, ← List.length_reverse, clearLoop_length]
  rfl

end Loops

/-! ## The window -/

/-- Messages of one sender, at most three, from the newest on, none received later than
the given time in nanoseconds. -/
structure Window (log : PortIdentity → Int8) (time : ℤ) (sender : PortIdentity)
    (messages : List Announce) : Prop where
  atMost : messages.length ≤ 3
  source : ∀ m ∈ messages, m.sourcePortIdentity = sender
  interval : ∀ m ∈ messages, m.logMessageInterval = log sender
  newestFirst : messages.Pairwise fun newer older =>
    nanoseconds older.hostTime ≤ nanoseconds newer.hostTime
  past : ∀ m ∈ messages, nanoseconds m.hostTime ≤ time

namespace Window

variable {log : PortIdentity → Int8} {time time' : ℤ} {sender : PortIdentity}
variable {messages messages' : List Announce} {m : Announce}
variable {host : BmcHost} {now : Timespec}

theorem nil : Window log time sender [] :=
  ⟨by simp, by simp, by simp, .nil, by simp⟩

theorem later (hwindow : Window log time sender messages) (hle : time ≤ time') :
    Window log time' sender messages :=
  { hwindow with past := fun m hm => (hwindow.past m hm).trans hle }

theorem sub (hwindow : Window log time sender messages)
    (hsub : messages'.Sublist messages) : Window log time sender messages' where
  atMost := hsub.length_le.trans hwindow.atMost
  source m hm := hwindow.source m (hsub.mem hm)
  interval m hm := hwindow.interval m (hsub.mem hm)
  newestFirst := hwindow.newestFirst.sublist hsub
  past m hm := hwindow.past m (hsub.mem hm)

theorem cons (hwindow : Window log time sender messages) (hroom : messages.length ≤ 2)
    (hsource : m.sourcePortIdentity = sender) (hlog : m.logMessageInterval = log sender)
    (hle : time ≤ nanoseconds m.hostTime) (hnow : nanoseconds m.hostTime ≤ time') :
    Window log time' sender (m :: messages) where
  atMost := Nat.succ_le_succ hroom
  source := List.forall_mem_cons.mpr ⟨hsource, hwindow.source⟩
  interval := List.forall_mem_cons.mpr ⟨hlog, hwindow.interval⟩
  newestFirst := List.pairwise_cons.mpr
    ⟨fun older holder => (hwindow.past older holder).trans hle, hwindow.newestFirst⟩
  past := List.forall_mem_cons.mpr
    ⟨hnow, fun older holder => (hwindow.past older holder).trans (hle.trans hnow)⟩

end Window

section

variable {log : PortIdentity → Int8} {time : ℤ} {sender : PortIdentity}
variable {messages : List Announce} {host : BmcHost} {now : Timespec}

theorem fcPrune_sublist : (Bmc.fcPrune host now messages).Sublist messages :=
  (List.rdropWhile_prefix _ _).sublist.trans (List.take_sublist _ _)

theorem length_fcPrune_le : (Bmc.fcPrune host now messages).length ≤ 2 :=
  ((List.rdropWhile_prefix _ _).length_le).trans (List.length_take_le _ _)

/-- Of two messages with one interval the newer is current as long as the older. -/
theorem msgCurrent_mono {older newer : Announce}
    (hlog : older.logMessageInterval = newer.logMessageInterval)
    (hle : nanoseconds older.hostTime ≤ nanoseconds newer.hostTime)
    (hcurrent : msgCurrent host now older = true) : msgCurrent host now newer = true := by
  revert hcurrent
  rw [msgCurrent, msgCurrent, hlog]
  cases announceLifetime host newer.logMessageInterval.toInt with
  | none => exact fun _ => rfl
  | some lifetime =>
    simp only [decide_eq_true_eq]
    omega

/-- Pruning from the end leaves the current ones of the two newest messages. -/
theorem Window.fcPrune_eq_filter (hwindow : Window log time sender messages) :
    Bmc.fcPrune host now messages =
      (messages.take foreignMasterThreshold).filter (msgCurrent host now) := by
  have hwindow := hwindow.sub (List.take_sublist foreignMasterThreshold messages)
  refine rdropWhile_eq_filter_iff.mpr
    (hwindow.newestFirst.imp_of_mem fun {newer older} hnewer holder hle => ?_)
  refine msgCurrent_mono ?_ hle
  rw [hwindow.interval older holder, hwindow.interval newer hnewer]

end

/-! ## Records in order -/

/-- The counter is that of the list, and the list is a window. -/
structure Record.Kept (log : PortIdentity → Int8) (time : ℤ) (fc : Record) : Prop where
  count : fc.nMessages = fc.messages.length
  window : Window log time fc.dataset.sender fc.messages

/-- Every record is in order, at its own address and for its own sender. -/
structure Masters.Kept (log : PortIdentity → Int8) (time : ℤ) (t : Masters) : Prop where
  each : ∀ fc ∈ t.records, fc.Kept log time
  senders : (t.records.map fun fc => fc.dataset.sender).Nodup
  addresses : (t.records.map Record.address).Nodup
  made : ∀ fc ∈ t.records, fc.address < t.mallocs

section

variable {log : PortIdentity → Int8} {time time' : ℤ} {fc : Record} {t t' : Masters}
variable {host : BmcHost} {now : Timespec} {m : Announce} {memory result : Bool}
variable {compare : Option Dataset → Option Dataset → ℤ} {readings : ℕ → Timespec}

theorem Record.Kept.later (hkept : fc.Kept log time) (hle : time ≤ time') :
    fc.Kept log time' :=
  ⟨hkept.count, hkept.window.later hle⟩

theorem Masters.Kept.later (hkept : t.Kept log time) (hle : time ≤ time') :
    t.Kept log time' :=
  { hkept with each := fun fc hfc => (hkept.each fc hfc).later hle }

/-- What pruning leaves of a record in order. -/
theorem Record.Kept.fcPrune (hkept : fc.Kept log time) :
    ∃ fc', fcPrune host now fc = some fc' ∧ fc'.Kept log time ∧
      fc'.address = fc.address ∧ fc'.dataset = fc.dataset ∧
      fc'.messages = Bmc.fcPrune host now fc.messages := by
  have hsize := hkept.window.atMost
  exact ⟨_, fcPrune_eq hkept.count (by omega),
    ⟨rfl, hkept.window.sub fcPrune_sublist⟩, rfl, rfl, rfl⟩

/-- A record is written at its address. -/
theorem Masters.Kept.setRecord (hkept : t.Kept log time) {fc' : Record}
    (hfc : fc ∈ t.records) (haddress : fc'.address = fc.address)
    (hsender : fc'.dataset.sender = fc.dataset.sender) (hfc' : fc'.Kept log time) :
    { t with records := setRecord fc' t.records }.Kept log time := by
  have hsame : ∀ old ∈ t.records, old.address = fc'.address → old = fc :=
    fun old hold heq =>
      List.inj_on_of_nodup_map hkept.addresses hold hfc (heq.trans haddress)
  have hmap : ∀ {β : Type} (g : Record → β), g fc' = g fc →
      (Qualification.setRecord fc' t.records).map g = t.records.map g := by
    intro β g hg
    rw [Qualification.setRecord, List.map_map]
    refine List.map_congr_left fun old hold => ?_
    rw [Function.comp_apply]
    split
    case isTrue heq => rw [hsame old hold heq, hg]
    case isFalse => rfl
  have hmem : ∀ new ∈ Qualification.setRecord fc' t.records, new = fc' ∨ new ∈ t.records := by
    intro new hnew
    obtain ⟨old, hold, rfl⟩ := List.mem_map.mp hnew
    split
    case isTrue => exact Or.inl rfl
    case isFalse => exact Or.inr hold
  constructor
  · intro new hnew
    rcases hmem new hnew with rfl | hold
    · exact hfc'
    · exact hkept.each new hold
  · rw [hmap (fun fc => fc.dataset.sender) hsender]
    exact hkept.senders
  · rw [hmap Record.address haddress]
    exact hkept.addresses
  · intro new hnew
    rcases hmem new hnew with rfl | hold
    · rw [haddress]
      exact hkept.made fc hfc
    · exact hkept.made new hold

theorem Masters.Kept.addRecord (hkept : t.Kept log time) {sender : PortIdentity}
    (hnew : ∀ fc ∈ t.records, fc.dataset.sender ≠ sender) :
    (addRecord sender t).Kept log time where
  each := List.forall_mem_cons.mpr ⟨⟨rfl, Window.nil⟩, hkept.each⟩
  senders := by
    refine List.nodup_cons.mpr ⟨fun hmem => ?_, hkept.senders⟩
    obtain ⟨fc, hfc, heq⟩ := List.mem_map.mp hmem
    exact hnew fc hfc heq
  addresses := by
    refine List.nodup_cons.mpr ⟨fun hmem => ?_, hkept.addresses⟩
    obtain ⟨fc, hfc, heq⟩ := List.mem_map.mp hmem
    exact absurd heq (hkept.made fc hfc).ne
  made := List.forall_mem_cons.mpr
    ⟨Nat.lt_succ_self _, fun fc hfc => (hkept.made fc hfc).trans (Nat.lt_succ_self _)⟩

theorem mem_of_findRecord {address : ℕ} {records : List Record}
    (hfind : findRecord address records = some fc) :
    fc ∈ records ∧ fc.address = address :=
  ⟨List.mem_of_find?_eq_some hfind, by simpa using List.find?_some hfind⟩

/-- A new message is put before what pruning leaves. -/
theorem Masters.Kept.insertMessage (hkept : t.Kept log time) (hfc : fc ∈ t.records)
    (hsource : m.sourcePortIdentity = fc.dataset.sender)
    (hlog : m.logMessageInterval = log m.sourcePortIdentity)
    (hle : time ≤ nanoseconds m.hostTime) (hnow : nanoseconds m.hostTime ≤ time')
    {pruned : Record} (hprune : Qualification.fcPrune host now fc = some pruned) :
    { t with records := Qualification.setRecord (insertMessage m pruned) t.records }.Kept
      log time' := by
  obtain ⟨fc', hprune', hkept', haddress, hdataset, hmessages⟩ :=
    @Record.Kept.fcPrune _ _ _ host now (hkept.each fc hfc)
  rw [hprune, Option.some_inj] at hprune'
  subst hprune'
  have hroom : pruned.messages.length ≤ 2 := hmessages ▸ length_fcPrune_le
  have hcount := hkept'.count
  refine (hkept.later (hle.trans hnow)).setRecord hfc haddress (by rw [← hdataset]; rfl)
    ⟨?_, ?_⟩
  · change increment pruned.nMessages = pruned.messages.length + 1
    unfold increment
    omega
  · refine hkept'.window.cons hroom ?_ ?_ hle hnow
    · rw [hsource, hdataset]
    · rw [hlog, hsource, hdataset]

theorem addForeignMaster_kept (hkept : t.Kept log time)
    (hlog : m.logMessageInterval = log m.sourcePortIdentity)
    (hle : time ≤ nanoseconds m.hostTime) (hnow : nanoseconds m.hostTime ≤ time')
    (hadd : addForeignMaster host now memory m t = some (result, t')) :
    t'.Kept log time' := by
  rw [addForeignMaster] at hadd
  cases hfind : t.records.find? (msgSourceEqual m) with
  | none =>
    rw [hfind] at hadd
    obtain ⟨-, rfl⟩ := Prod.mk.inj (Option.some.inj hadd)
    have hlater := hkept.later (hle.trans hnow)
    split
    · refine hlater.addRecord fun fc hfc heq => ?_
      have hno := List.find?_eq_none.mp hfind fc hfc
      exact hno (decide_eq_true heq.symm)
    · exact hlater
  | some fc =>
    rw [hfind] at hadd
    simp only [Option.bind_eq_bind, Option.bind_eq_some_iff, Option.pure_def,
      Option.some.injEq, Prod.mk.injEq] at hadd
    obtain ⟨pruned, hprune, -, -, -, rfl⟩ := hadd
    have hsource : m.sourcePortIdentity = fc.dataset.sender := by
      simpa [msgSourceEqual] using List.find?_some hfind
    exact hkept.insertMessage (List.mem_of_find?_eq_some hfind) hsource hlog hle hnow hprune

theorem updateCurrentMaster_kept (hkept : t.Kept log time)
    (hlog : m.logMessageInterval = log m.sourcePortIdentity)
    (hle : time ≤ nanoseconds m.hostTime) (hnow : nanoseconds m.hostTime ≤ time')
    (hupdate : updateCurrentMaster host now memory m t = some (result, t')) :
    t'.Kept log time' := by
  simp only [updateCurrentMaster, Option.bind_eq_bind, Option.bind_eq_some_iff] at hupdate
  obtain ⟨fc, ⟨best, -, hfind⟩, hupdate⟩ := hupdate
  split at hupdate
  case isTrue => exact addForeignMaster_kept hkept hlog hle hnow hupdate
  case isFalse hequal =>
    simp only [Option.bind_eq_some_iff, Option.pure_def, Option.some.injEq,
      Prod.mk.injEq] at hupdate
    obtain ⟨pruned, hprune, -, -, -, rfl⟩ := hupdate
    have hsource : m.sourcePortIdentity = fc.dataset.sender := by
      simpa [msgSourceEqual] using hequal
    exact hkept.insertMessage (mem_of_findRecord hfind).1 hsource hlog hle hnow hprune

theorem portMsgProAnnounce_kept {state : PortState} (hkept : t.Kept log time)
    (hlog : m.logMessageInterval = log m.sourcePortIdentity)
    (hle : time ≤ nanoseconds m.hostTime) (hnow : nanoseconds m.hostTime ≤ time')
    (hprocess : portMsgProAnnounce host now memory state m t = some (result, t')) :
    t'.Kept log time' := by
  have hsame : some (false, t) = some (result, t') → t'.Kept log time' := by
    intro heq
    obtain ⟨-, rfl⟩ := Prod.mk.inj (Option.some.inj heq)
    exact hkept.later (hle.trans hnow)
  unfold portMsgProAnnounce at hprocess
  split at hprocess
  case isTrue => exact hsame hprocess
  case isFalse =>
    split at hprocess
    all_goals first
      | exact hsame hprocess
      | exact addForeignMaster_kept hkept hlog hle hnow hprocess
      | exact updateCurrentMaster_kept hkept hlog hle hnow hprocess

/-- The message behind the first is there. -/
theorem Record.Kept.changed (hkept : fc.Kept log time) :
    ∃ diff, changed m (insertMessage m fc) = some diff := by
  have hcount := hkept.count
  rw [Qualification.changed, insertMessage]
  split
  case isTrue hmany =>
    cases hmessages : fc.messages with
    | nil =>
      rw [hmessages, List.length_nil] at hcount
      simp [hcount, increment] at hmany
    | cons before rest => exact ⟨_, rfl⟩
  case isFalse => exact ⟨_, rfl⟩

theorem addForeignMaster_defined (hkept : t.Kept log time) :
    ∃ result t', addForeignMaster host now memory m t = some (result, t') := by
  rw [addForeignMaster]
  split
  case h_1 => exact ⟨_, _, rfl⟩
  case h_2 fc hfind =>
    obtain ⟨fc', hprune, hkept', -⟩ :=
      @Record.Kept.fcPrune _ _ _ host now (hkept.each fc (List.mem_of_find?_eq_some hfind))
    obtain ⟨diff, hdiff⟩ := @Record.Kept.changed _ _ _ m hkept'
    simp only [hprune, hdiff, Option.bind_eq_bind, Option.bind_some]
    exact ⟨_, _, rfl⟩

/-- No null pointer is followed where the port has a best record in the states in which it
looks for one. -/
theorem portMsgProAnnounce_defined {state : PortState} (hkept : t.Kept log time)
    (hbest : state = .passive ∨ state = .uncalibrated ∨ state = .slave →
      ∃ fc ∈ t.records, t.best = some fc.address) :
    ∃ result t', portMsgProAnnounce host now memory state m t = some (result, t') := by
  have hupdate : (∃ fc ∈ t.records, t.best = some fc.address) →
      ∃ result t', updateCurrentMaster host now memory m t = some (result, t') := by
    rintro ⟨fc, hfc, hbest⟩
    have hfound : (findRecord fc.address t.records).isSome := by
      rw [findRecord, List.find?_isSome]
      exact ⟨fc, hfc, decide_eq_true rfl⟩
    obtain ⟨best, hfind⟩ := Option.isSome_iff_exists.mp hfound
    obtain ⟨fc', hprune, hkept', -⟩ :=
      @Record.Kept.fcPrune _ _ _ host now (hkept.each best (mem_of_findRecord hfind).1)
    obtain ⟨diff, hdiff⟩ := @Record.Kept.changed _ _ _ m hkept'
    simp only [updateCurrentMaster, hbest, hfind, hprune, hdiff, Option.bind_eq_bind,
      Option.bind_some]
    split
    · exact addForeignMaster_defined hkept
    · exact ⟨_, _, rfl⟩
  unfold portMsgProAnnounce
  split
  case isTrue => exact ⟨_, _, rfl⟩
  case isFalse =>
    split
    all_goals first
      | exact ⟨_, _, rfl⟩
      | exact addForeignMaster_defined hkept
      | exact hupdate (hbest (by simp))

/-! ## The election -/

/-- What a visit makes of a record: it stays in order and of its sender, and a best record
that it chooses has enough messages. -/
structure Visited (log : PortIdentity → Int8) (time : ℤ) (fc fc' : Record)
    (best best' : Option Record) : Prop where
  kept : fc'.Kept log time
  address : fc'.address = fc.address
  sender : fc'.dataset.sender = fc.dataset.sender
  chosen : best' = best ∨ best' = some fc' ∧ foreignMasterThreshold ≤ fc'.nMessages

theorem visit_spec {port : BmcPort} (best : Option Record) (hkept : fc.Kept log time) :
    ∃ fc' best', visit host compare port now best fc = some (fc', best') ∧
      Visited log time fc fc' best best' := by
  rw [visit]
  cases hmessages : fc.messages with
  | nil => exact ⟨fc, best, rfl, hkept, rfl, rfl, Or.inl rfl⟩
  | cons newest rest =>
    have hsender : (announceToDataset newest port).sender = fc.dataset.sender :=
      hkept.window.source newest (hmessages ▸ List.mem_cons_self)
    have hrenewed : { fc with dataset := announceToDataset newest port }.Kept log time :=
      ⟨hkept.count, hsender ▸ hkept.window⟩
    obtain ⟨fc', hprune, hkept', haddress, hdataset, -⟩ :=
      @Record.Kept.fcPrune _ _ _ host now hrenewed
    have hsender' : fc'.dataset.sender = fc.dataset.sender := by rw [hdataset, hsender]
    simp only [Option.bind_eq_bind]
    rw [← hmessages, hprune, Option.bind_some]
    split
    case isTrue => exact ⟨fc', best, rfl, hkept', haddress, hsender', Or.inl rfl⟩
    case isFalse hmany =>
      split
      case isTrue =>
        exact ⟨fc', some fc', rfl, hkept', haddress, hsender',
          Or.inr ⟨rfl, not_lt.mp hmany⟩⟩
      case isFalse =>
        rw [fcClear_eq hkept'.count]
        exact ⟨_, best, rfl, ⟨rfl, Window.nil⟩, haddress, hsender', Or.inl rfl⟩

theorem bestLoop_spec {port : BmcPort} (taken : ℕ) (best : Option Record)
    {records : List Record} (hkept : ∀ fc ∈ records, fc.Kept log time) :
    ∃ records' best', bestLoop host compare port readings taken best records =
        some (records', best') ∧
      (∀ fc ∈ records', fc.Kept log time) ∧
      records'.map Record.address = records.map Record.address ∧
      (records'.map fun fc => fc.dataset.sender) =
        (records.map fun fc => fc.dataset.sender) ∧
      (best' = best ∨ ∃ fc ∈ records', best' = some fc ∧
        foreignMasterThreshold ≤ fc.nMessages) := by
  induction records generalizing taken best with
  | nil => exact ⟨[], best, rfl, by simp, rfl, rfl, Or.inl rfl⟩
  | cons fc rest ih =>
    obtain ⟨hfirst, hrest⟩ := List.forall_mem_cons.mp hkept
    obtain ⟨fc', best₁, hvisit, hvisited⟩ :=
      @visit_spec _ _ _ host (readings taken) compare port best hfirst
    obtain ⟨rest', best₂, hloop, hkept', haddresses, hsenders, hchosen⟩ :=
      ih (taken + 1) best₁ hrest
    refine ⟨fc' :: rest', best₂, ?_, List.forall_mem_cons.mpr ⟨hvisited.kept, hkept'⟩,
      by rw [List.map_cons, List.map_cons, hvisited.address, haddresses],
      by rw [List.map_cons, List.map_cons, hvisited.sender, hsenders], ?_⟩
    · simp only [bestLoop, hvisit, hloop, Option.bind_eq_bind, Option.bind_some]
      rfl
    · rcases hchosen with rfl | ⟨other, hother, heq, hmany⟩
      · rcases hvisited.chosen with rfl | ⟨rfl, hmany⟩
        · exact Or.inl rfl
        · exact Or.inr ⟨fc', List.mem_cons_self, rfl, hmany⟩
      · exact Or.inr ⟨other, List.mem_cons_of_mem _ hother, heq, hmany⟩

/-- The election goes through, keeps the records in order and picks one that still has
enough messages. -/
theorem portComputeBest_spec (hkept : t.Kept log time) :
    ∃ t', portComputeBest host compare readings t = some t' ∧ t'.Kept log time ∧
      ∀ address ∈ t'.best, ∃ fc ∈ t'.records, fc.address = address ∧
        foreignMasterThreshold ≤ fc.nMessages := by
  rw [portComputeBest]
  split
  case isTrue => exact ⟨_, rfl, ⟨hkept.each, hkept.senders, hkept.addresses, hkept.made⟩, nofun⟩
  case isFalse =>
    obtain ⟨records', best', hloop, hkept', haddresses, hsenders, hchosen⟩ :=
      @bestLoop_spec _ _ host compare readings t.port 0 none t.records hkept.each
    rw [hloop]
    refine ⟨_, rfl, ⟨hkept', by simpa only [hsenders] using hkept.senders,
      by simpa only [haddresses] using hkept.addresses, fun fc hfc => ?_⟩, ?_⟩
    · have hmem : fc.address ∈ t.records.map Record.address :=
        haddresses ▸ List.mem_map_of_mem hfc
      obtain ⟨old, hold, heq⟩ := List.mem_map.mp hmem
      exact heq ▸ hkept.made old hold
    · rintro address haddress
      obtain ⟨fc, hbest, rfl⟩ := Option.map_eq_some_iff.mp haddress
      rcases hchosen with rfl | ⟨other, hother, heq, hmany⟩
      · exact absurd hbest nofun
      · rw [hbest, Option.some_inj] at heq
        exact ⟨fc, heq ▸ hother, rfl, heq ▸ hmany⟩

/-! ## Clearing -/

theorem receiptTimeout_kept (hkept : t.Kept log time) (htimeout : receiptTimeout t = some t') :
    t'.Kept log time := by
  rw [receiptTimeout] at htimeout
  split at htimeout
  case h_1 =>
    obtain rfl := Option.some.inj htimeout
    exact hkept
  case h_2 best hbest =>
    simp only [Option.bind_eq_bind, Option.bind_eq_some_iff, Option.pure_def,
      Option.some.injEq] at htimeout
    obtain ⟨fc, hfind, cleared, hclear, rfl⟩ := htimeout
    have hfc := (mem_of_findRecord hfind).1
    rw [fcClear_eq (hkept.each fc hfc).count, Option.some_inj] at hclear
    subst hclear
    exact hkept.setRecord hfc rfl rfl ⟨rfl, Window.nil⟩

theorem portOpDisable_kept (hdisable : portOpDisable t = some t') :
    t'.Kept log time := by
  obtain ⟨-, -, rfl⟩ := Option.map_eq_some_iff.mp hdisable
  exact ⟨by simp, .nil, .nil, by simp⟩

end

/-! ## Runs -/

def newPort (portIdentity : PortIdentity) (localPriority : UInt8) (masterOnly : Bool) :
    Masters :=
  ⟨portIdentity, localPriority, masterOnly, [], none, 0⟩

/-- What a port comes to at a time, in nanoseconds, that never goes back.  Announces arrive
in any state of the port and from any sender, all those of one with the same interval;
`fc_prune` reads the clock after the message was stamped. -/
inductive Reaches (host : BmcHost) (compare : Option Dataset → Option Dataset → ℤ)
    (log : PortIdentity → Int8) : ℤ → Masters → Prop
  | start (time : ℤ) (portIdentity : PortIdentity) (localPriority : UInt8)
      (masterOnly : Bool) :
      Reaches host compare log time (newPort portIdentity localPriority masterOnly)
  | announce {time : ℤ} {t t' : Masters} {m : Announce} {now : Timespec}
      {state : PortState} {memory result : Bool}
      (hreach : Reaches host compare log time t)
      (hlog : m.logMessageInterval = log m.sourcePortIdentity)
      (hle : time ≤ nanoseconds m.hostTime)
      (hnow : nanoseconds m.hostTime ≤ nanoseconds now)
      (hprocess : portMsgProAnnounce host now memory state m t = some (result, t')) :
      Reaches host compare log (nanoseconds now) t'
  | computeBest {time time' : ℤ} {t t' : Masters} {readings : ℕ → Timespec}
      (hreach : Reaches host compare log time t)
      (hreadings : ∀ i, time ≤ nanoseconds (readings i) ∧ nanoseconds (readings i) ≤ time')
      (hbest : portComputeBest host compare readings t = some t') :
      Reaches host compare log time' t'
  | timeout {time : ℤ} {t t' : Masters} (hreach : Reaches host compare log time t)
      (htimeout : receiptTimeout t = some t') : Reaches host compare log time t'
  | disable {time : ℤ} {t t' : Masters} (hreach : Reaches host compare log time t)
      (hdisable : portOpDisable t = some t') : Reaches host compare log time t'

section

variable {host : BmcHost} {compare : Option Dataset → Option Dataset → ℤ}
variable {log : PortIdentity → Int8} {time : ℤ} {t : Masters}

theorem Reaches.kept (hreach : Reaches host compare log time t) : t.Kept log time := by
  induction hreach with
  | start => exact ⟨by simp [newPort], .nil, .nil, by simp [newPort]⟩
  | announce _ hlog hle hnow hprocess ih =>
    exact portMsgProAnnounce_kept ih hlog hle hnow hprocess
  | computeBest _ hreadings hbest ih =>
    obtain ⟨t', hbest', hkept, -⟩ := @portComputeBest_spec _ _ _ host _ _ ih
    rw [hbest, Option.some_inj] at hbest'
    subst hbest'
    exact hkept.later ((hreadings 0).1.trans (hreadings 0).2)
  | timeout _ htimeout ih => exact receiptTimeout_kept ih htimeout
  | disable _ hdisable ih => exact portOpDisable_kept hdisable

/-- After every run the counters are those of the lists, no list is longer than three, each
is of its own sender and from the newest on, pruning leaves what is current, and the
election picks a record that still has enough messages. -/
theorem qualification_window (hreach : Reaches host compare log time t) :
    (∀ fc ∈ t.records, fc.nMessages = fc.messages.length ∧ fc.messages.length ≤ 3 ∧
      (∀ m ∈ fc.messages, m.sourcePortIdentity = fc.dataset.sender) ∧
      fc.messages.Pairwise fun newer older =>
        nanoseconds older.hostTime ≤ nanoseconds newer.hostTime) ∧
    (t.records.map fun fc => fc.dataset.sender).Nodup ∧
    (∀ now, ∀ fc ∈ t.records, ∃ fc', fcPrune host now fc = some fc' ∧
      ∀ m ∈ fc'.messages, msgCurrent host now m = true) ∧
    ∀ readings, ∃ t', portComputeBest host compare readings t = some t' ∧
      ∀ address ∈ t'.best, ∃ fc ∈ t'.records, fc.address = address ∧
        foreignMasterThreshold ≤ fc.nMessages := by
  have hkept := hreach.kept
  refine ⟨fun fc hfc => ?_, hkept.senders, fun now fc hfc => ?_, fun readings => ?_⟩
  · obtain ⟨hcount, hwindow⟩ := hkept.each fc hfc
    exact ⟨hcount, hwindow.atMost, hwindow.source, hwindow.newestFirst⟩
  · obtain ⟨fc', hprune, -, -, -, hmessages⟩ :=
      @Record.Kept.fcPrune _ _ _ host now (hkept.each fc hfc)
    refine ⟨fc', hprune, fun m hm => ?_⟩
    rw [hmessages, (hkept.each fc hfc).window.fcPrune_eq_filter] at hm
    exact (List.mem_filter.mp hm).2
  · obtain ⟨t', hbest, -, hchosen⟩ := @portComputeBest_spec _ _ _ host compare readings hkept
    exact ⟨t', hbest, hchosen⟩

end

def plainHost : BmcHost := ⟨.little, fun _ => 0, fun _ => ⟨0, 0⟩⟩

def heardAt (second : ℤ) : Announce := { fifthSecond 1 with hostTime := ⟨second, 0⟩ }

def hear (t : Masters) (second : ℤ) : Masters :=
  ((portMsgProAnnounce plainHost ⟨second, 0⟩ true .listening (heardAt second) t).getD
    (false, t)).2

def heard (seconds : List ℤ) : Masters :=
  seconds.foldl hear (newPort ⟨⟨Vector.replicate 8 0⟩, 1⟩ 128 false)

theorem qualification_window_heard :
    (∀ fc ∈ (heard [5, 7, 9]).records,
      fc.nMessages = fc.messages.length ∧ fc.messages.length ≤ 3 ∧
      (∀ m ∈ fc.messages, m.sourcePortIdentity = fc.dataset.sender) ∧
      fc.messages.Pairwise fun newer older =>
        nanoseconds older.hostTime ≤ nanoseconds newer.hostTime) ∧
    ((heard [5, 7, 9]).records.map fun fc => fc.dataset.sender).Nodup ∧
    (∀ now, ∀ fc ∈ (heard [5, 7, 9]).records, ∃ fc', fcPrune plainHost now fc = some fc' ∧
      ∀ m ∈ fc'.messages, msgCurrent plainHost now m = true) ∧
    ∀ readings, ∃ t',
      portComputeBest plainHost (fun _ _ => 1) readings (heard [5, 7, 9]) = some t' ∧
      ∀ address ∈ t'.best, ∃ fc ∈ t'.records, fc.address = address ∧
        foreignMasterThreshold ≤ fc.nMessages := by
  have hstart := @Reaches.start plainHost (fun _ _ => 1) (fun _ => 1) 0
    ⟨⟨Vector.replicate 8 0⟩, 1⟩ 128 false
  have hfirst := @Reaches.announce _ _ _ _ _ (heard [5]) (heardAt 5) ⟨5, 0⟩ .listening true
    false hstart rfl (by decide) (by decide) (by decide +kernel)
  have hsecond := @Reaches.announce _ _ _ _ _ (heard [5, 7]) (heardAt 7) ⟨7, 0⟩ .listening
    true false hfirst rfl (by decide) (by decide) (by decide +kernel)
  have hthird := @Reaches.announce _ _ _ _ _ (heard [5, 7, 9]) (heardAt 9) ⟨9, 0⟩ .listening
    true true hsecond rfl (by decide) (by decide) (by decide +kernel)
  exact qualification_window hthird

end LinuxPtp.Qualification
