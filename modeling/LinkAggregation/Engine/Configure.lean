import LinkAggregation.Engine.Evaluate

/-!
# Configuring the engine

One operation for each way in which a table entry can change: setting or deleting the system
identity, a LAG, a member or a port. Each change ends with an evaluation of the LAG concerned.
-/
namespace LinkAggregation
open Text

/-- The key under which the system settings are kept. -/
def systemKey : String := "global"

/-- The LAG and the interface that a member key `<lag>|<interface>` names. -/
def memberKey? (key : String) : Option (String × String) :=
  match splitFirst? '|' key.toList with
  | some (lag, interface) =>
    if lag.isEmpty || interface.isEmpty then none
    else some (String.ofList lag, String.ofList interface)
  | none => none

/-- The two names in a member key, which has to have its form. -/
def parseMemberKey (key : String) : Except Error (String × String) :=
  match memberKey? key with
  | some names => .ok names
  | none => .error (.invalidConfig "key" (.memberKeyForm key))

namespace Engine
variable [Clock]

/-- Brings the receive machine of a member in line with its port and its LAG's mode. -/
def syncReceive (e : Engine) (slot : Nat) : Engine :=
  match e.interfaces.get? slot with
  | none => e
  | some i =>
    match i.lag.bind e.lags.get? with
    | none => e
    | some lag =>
      let put (r : Protocol × Timers) : Engine :=
        { e.modifyInterface slot (fun i => { i with protocol := r.1 }) with timers := r.2 }
      let p := i.protocol
      if !i.isEnabled then
        if p.receive = .portDisabled then e else put (Receive.portDisabled slot p e.timers)
      else if !lag.isDynamic then
        if p.receive = .lacpDisabled then e else put (Receive.lacpDisabled slot p e.timers)
      else if p.receive.isRunning then e
      else put (Receive.enable slot p lag.settings.mode lag.settings.rate e.timers e.now)

/-- The slot of an interface, which is created if it is not known. -/
def ensureInterface (e : Engine) (name : String) : Engine × Nat :=
  match e.interfaces.find? name with
  | some slot => (e, slot)
  | none =>
    let slot := e.interfaces.freeSlot
    ({ e with interfaces := e.interfaces.insert name (Interface.new name slot) }, slot)

/-- Takes an interface out of its LAG: its machines stop and its record is withdrawn. -/
def detachMember (e : Engine) (lagSlot slot : Nat) : Step :=
  let e := { e.modifyLag lagSlot (·.removeMember slot) with
    timers := e.timers.cancelInterface slot }
  match e.interfaces.get? slot with
  | none => (e, [])
  | some i =>
    (e.modifyInterface slot fun i =>
        { i.reset with lag := none, settings := {}, published := none },
      if i.published.isSome then e.emit [.removeRecord i.name] else [])

/-! ## The system identity -/

/-- Takes on an identity; every member has to tell its partner. -/
def setSystem (e : Engine) (system : SystemIdentity) : Step :=
  let tell (i : Interface) : Interface :=
    if i.lag.isSome then { i with protocol := { i.protocol with needToTransmit := true } } else i
  let e := { e with system, interfaces := e.interfaces.map tell }
  e.evaluateAll e.lags.occupied

/-- Takes on an identity if it is another one. -/
def changeSystem (e : Engine) (system : SystemIdentity) : Outcome :=
  if system = e.system then .ok (e, []) else .ok (e.setSystem system)

def systemSet (e : Engine) (key : String) (fields : List Field) : Outcome :=
  if key ≠ systemKey then .fail e (.invalidConfig "key" (.systemKey key systemKey))
  else
    match e.system.withFields fields with
    | .error error => .fail e error
    | .ok system => e.changeSystem system

/-- Goes back to the default identity. -/
def systemDel (e : Engine) (key : String) : Outcome :=
  if key ≠ systemKey then .fail e (.invalidConfig "key" (.unknownKey key))
  else e.changeSystem {}

/-! ## LAGs -/

def createLag (e : Engine) (name : String) (key : UInt16) (settings : LagSettings) : Step :=
  let slot := e.lags.freeSlot
  { e with lags := e.lags.insert name { name, key, settings } }.evaluate slot

/-- Starts the protocol of a member anew after its LAG has become static or dynamic. -/
def restartMember (e : Engine) (slot : Nat) : Engine :=
  ({ e.modifyInterface slot Interface.reset with
    timers := e.timers.cancelInterface slot }).syncReceive slot

/-- Tells a running member of new settings of its dynamic LAG. -/
def updateMember (old new : LagSettings) (e : Engine) (slot : Nat) : Engine :=
  let flagsChanged := old.mode ≠ new.mode || old.rate ≠ new.rate
  let identityChanged := old.systemMac ≠ new.systemMac || old.systemPriority ≠ new.systemPriority
  match e.interfaces.get? slot with
  | none => e
  | some i =>
    if !i.protocol.receive.isRunning then e
    else
      let p := i.protocol
      let p :=
        if flagsChanged then { p with actor := Receive.withSettings p.actor new.mode new.rate }
        else p
      let timers :=
        if flagsChanged then Receive.rateChanged slot p e.timers e.now else e.timers
      let p :=
        { p with needToTransmit := p.needToTransmit || flagsChanged || identityChanged }
      { e.modifyInterface slot (fun i => { i with protocol := p }) with timers }

/-- Gives a LAG new settings. -/
def changeLag (e : Engine) (slot : Nat) (lag : Lag) (settings : LagSettings) : Step :=
  let old := lag.settings
  let e := e.modifyLag slot fun lag => { lag with settings }
  let e :=
    if old.mode.isDynamic ≠ settings.mode.isDynamic then lag.members.foldl restartMember e
    else if settings.mode.isDynamic then lag.members.foldl (updateMember old settings) e
    else e
  e.evaluate slot

/-- Creates a LAG, or changes its settings. -/
def lagSet (e : Engine) (name : String) (fields : List Field) : Outcome :=
  match lagKey name with
  | .error error => .fail e error
  | .ok key =>
    match e.lags.find? name with
    | none =>
      match ({} : LagSettings).withFields fields with
      | .error error => .fail e error
      | .ok settings => .ok (e.createLag name key settings)
    | some slot =>
      match e.lags.get? slot with
      | none => .fail e (.lagNotFound name)
      | some lag =>
        match lag.settings.withFields fields with
        | .error error => .fail e error
        | .ok settings =>
          if settings = lag.settings then .ok (e, []) else .ok (e.changeLag slot lag settings)

/-- Deletes a LAG after taking its members out of it. -/
def lagDel (e : Engine) (name : String) : Outcome :=
  match e.lags.find? name with
  | none => .ok (e, [])
  | some slot =>
    let members := ((e.lags.get? slot).map (·.members)).getD []
    let (e, effects) := members.foldl (fun (s : Step) m => s.next (·.detachMember slot m)) (e, [])
    .ok ({ e with
        timers := e.timers.cancel (.fallback slot)
        lags := e.lags.remove name slot },
      effects ++ e.emit [.removeLag name])

/-! ## Members -/

/-- Makes an interface a member of a LAG. -/
def attachMember (e : Engine) (lagSlot slot : Nat) (settings : MemberSettings) : Step :=
  let e := e.modifyInterface slot fun i => { i.reset with settings, lag := some lagSlot }
  let e := e.modifyLag lagSlot (·.addMember slot)
  (e.syncReceive slot).evaluate lagSlot

/-- Gives a member new settings, of which its partner has to be told. -/
def changeMember (e : Engine) (lagSlot slot : Nat) (settings : MemberSettings) : Step :=
  (e.modifyInterface slot fun i =>
    { i with settings, protocol := { i.protocol with needToTransmit := true } }).evaluate lagSlot

/-- Makes an interface a member of a LAG, or changes its settings. An interface that is not known
is created even if its settings are then refused. -/
def memberSet (e : Engine) (key : String) (fields : List Field) : Outcome :=
  match parseMemberKey key with
  | .error error => .fail e error
  | .ok (lagName, name) =>
    match e.lags.find? lagName with
    | none => .fail e (.lagNotFound lagName)
    | some lagSlot =>
      let (e, slot) := e.ensureInterface name
      match e.interfaces.get? slot with
      | none => .fail e (.interfaceNotFound name)
      | some i =>
        match i.lag with
        | none =>
          match ({} : MemberSettings).withFields fields with
          | .error error => .fail e error
          | .ok settings => .ok (e.attachMember lagSlot slot settings)
        | some current =>
          if current ≠ lagSlot then
            let other := ((e.lags.get? current).map (·.name)).getD ""
            .fail e (.interfaceInOtherLag name other)
          else
            match i.settings.withFields fields with
            | .error error => .fail e error
            | .ok settings =>
              if settings = i.settings then .ok (e, [])
              else .ok (e.changeMember lagSlot slot settings)

/-- Takes an interface out of a LAG, if it is a member of it. -/
def memberDel (e : Engine) (key : String) : Outcome :=
  match parseMemberKey key with
  | .error error => .fail e error
  | .ok (lagName, name) =>
    match e.lags.find? lagName, e.interfaces.find? name with
    | some lagSlot, some slot =>
      if ((e.interfaces.get? slot).bind (·.lag)) = some lagSlot then
        .ok ((e.detachMember lagSlot slot).next (·.evaluate lagSlot))
      else .ok (e, [])
    | _, _ => .ok (e, [])

/-! ## Ports -/

/-- Gives an interface a port status; a member's machines follow it. -/
def updatePort (e : Engine) (slot : Nat) (status : PortStatus) : Step :=
  match e.interfaces.get? slot with
  | none => (e, [])
  | some i =>
    if status = i.port then (e, [])
    else
      let e := e.modifyInterface slot fun i => { i with port := status }
      match i.lag with
      | none => (e, [])
      | some lagSlot => (e.syncReceive slot).evaluate lagSlot

/-- Applies fields to the port status of an interface, which is created if it is not known. -/
def portSet (e : Engine) (name : String) (fields : List Field) : Outcome :=
  let current := ((e.interface? name).map (·.port)).getD {}
  match current.withFields fields with
  | .error error => .fail e error
  | .ok status =>
    let (e, slot) := e.ensureInterface name
    .ok (e.updatePort slot status)

/-- Forgets an interface; a member stays, with its port down. -/
def portDel (e : Engine) (name : String) : Outcome :=
  match e.interfaces.find? name with
  | none => .ok (e, [])
  | some slot =>
    if ((e.interfaces.get? slot).bind (·.lag)).isSome then .ok (e.updatePort slot {})
    else
      .ok ({ e with
          timers := e.timers.cancelInterface slot
          interfaces := e.interfaces.remove name slot }, [])

end Engine
end LinkAggregation
