import DyeIsLife.App.Device
import Mathlib.Logic.Function.Basic

/-!
# All devices over one database

Any number of devices run the app over the accounts of the project and one
database.  A step is an action on one device; the write it issues, if any, is
applied at once, under a fresh key where `push` generates one.  The log keeps
every write with the device that issued it; no code reads the log.
-/

namespace DyeIsLife.App

open DyeIsLife.Auth
open DyeIsLife.Firebase
open DyeIsLife.Records
open DyeIsLife.Transition

/-- A write with the device that issued it. -/
structure Issued where
  device : Nat
  write : Write

structure World where
  devices : Nat → Device
  accounts : List Uid
  database : Database
  log : List Issued

/-- An action on one of the devices. -/
structure WorldAction where
  device : Nat
  action : DeviceAction

/-- Firebase creates accounts under new uids only and signs in to existing
accounts only. -/
def admits (accounts : List Uid) (device : Device) : DeviceAction → Bool
  | .effect index (.granted user) =>
      match device.session.calls[index]? with
      | some ⟨.register, _, _⟩ => user ∉ accounts
      | some ⟨.login, _, _⟩ => user ∈ accounts
      | _ => true
  | .effect _ (.createdOnly user) => user ∉ accounts
  | _ => true

/-- The account that a sign-up creates, whether or not its call succeeds. -/
def created (device : Device) : DeviceAction → List Uid
  | .effect index (.granted user) =>
      match device.session.calls[index]? with
      | some ⟨.register, _, _⟩ => [user]
      | _ => []
  | .effect _ (.createdOnly user) => [user]
  | _ => []

namespace World

/-- Replace one device. -/
def setDevice (world : World) (index : Nat) (device : Device) : World :=
  { world with devices := Function.update world.devices index device }

/-- Apply a write and log it. -/
def issue (world : World) (index : Nat) (write : Write) : Option World :=
  if write.Fresh world.database then
    some { world with
      database := write.apply world.database
      log := world.log ++ [⟨index, write⟩] }
  else
    none

/-- One step of the world. -/
def step : Step World WorldAction := fun world ⟨index, action⟩ =>
  let device := world.devices index
  if admits world.accounts device action then
    (device.step action).bind fun (next, write) =>
      let moved := { world with accounts := world.accounts ++ created device action }.setDevice
        index next
      match write with
      | none => some moved
      | some write => moved.issue index write
  else
    none

/-- The freshly launched devices. -/
def launch (accounts : List Uid) (database : Database) (remembered : Nat → Option Uid) :
    World where
  devices index := Device.launch (remembered index)
  accounts
  database
  log := []

/-! ## What one step can do -/

/-- The steps of the world: a device moves, and possibly issues a write. -/
inductive Moves (world : World) (index : Nat) (action : DeviceAction) : World → Prop
  | silent {device : Device}
      (taken : (world.devices index).step action = some (device, none)) :
      Moves world index action
        ({ world with accounts := world.accounts ++ created (world.devices index) action }.setDevice
          index device)
  | writes {device : Device} {write : Write}
      (taken : (world.devices index).step action = some (device, some write))
      (issues : (world.devices index).Issues action write) (fresh : write.Fresh world.database) :
      Moves world index action
        { ({ world with
            accounts := world.accounts ++ created (world.devices index) action }.setDevice
              index device) with
          database := write.apply world.database
          log := world.log ++ [⟨index, write⟩] }

theorem moves_of_step {world next : World} {index : Nat} {action : DeviceAction}
    (taken : step world ⟨index, action⟩ = some next) : Moves world index action next := by
  simp only [step] at taken
  split at taken
  · rcases Option.bind_eq_some_iff.mp taken with ⟨⟨device, write⟩, moved, issued⟩
    cases write with
    | none =>
        cases issued
        exact .silent moved
    | some write =>
        simp only [issue] at issued
        split at issued
        · rename_i fresh
          cases issued
          exact .writes moved (Device.issues_of_step moved) fresh
        · contradiction
  · contradiction

/-- A property of single devices that their steps keep. -/
theorem Moves.device {world next : World} {index : Nat} {action : DeviceAction}
    (moves : Moves world index action next) :
    ∃ device write, (world.devices index).step action = some (device, write) ∧
      next.devices = Function.update world.devices index device := by
  cases moves with
  | silent taken => exact ⟨_, _, taken, rfl⟩
  | writes taken issues fresh => exact ⟨_, _, taken, rfl⟩

theorem Moves.accounts {world next : World} {index : Nat} {action : DeviceAction}
    (moves : Moves world index action next) :
    next.accounts = world.accounts ++ created (world.devices index) action := by
  cases moves with
  | silent taken => rfl
  | writes taken issues fresh => rfl

/-- Once past its login page every device has assigned `currentUser`. -/
theorem assigned_step {world next : World} {action : WorldAction}
    (assigned : ∀ index, (world.devices index).Assigned)
    (taken : step world action = some next) : ∀ index, (next.devices index).Assigned := by
  intro index
  rcases (moves_of_step taken).device with ⟨device, write, moved, devices⟩
  rw [devices]
  by_cases same : index = action.device
  · subst same
    rw [Function.update_self]
    exact (assigned action.device).step moved
  · rw [Function.update_of_ne same]
    exact assigned index

end World

end DyeIsLife.App
