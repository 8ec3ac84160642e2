import MiddleEnd.Text.Width

/-!
The width of a line on a terminal. Control sequences take no column, and a cluster of characters
takes the columns of all that stand side by side in it.
-/

namespace MiddleEnd.Text

/-! Control sequences. -/

inductive ControlMode where
  | ground
  | escape
  | escapeEnd
  | command
  | parameters
  | commandEnd
  | device
  | deviceParameters
  | deviceEnd
  | deviceData
  | systemData
  | hiddenData
  deriving DecidableEq, Repr, Inhabited

namespace ControlMode

/-- Data that may hold bytes of every kind. -/
def isData (m : ControlMode) : Bool :=
  m == .deviceData || m == .systemData

def afterHigh (b : UInt8) : ControlMode :=
  match b with
  | 0x90 => .device
  | 0x9B => .command
  | 0x9D => .systemData
  | 0x98 | 0x9E | 0x9F => .hiddenData
  | _ => .ground

def afterEscape (b : UInt8) : ControlMode :=
  if b < 0x30 then .escapeEnd
  else match b with
    | 0x50 => .device
    | 0x5B => .command
    | 0x5D => .systemData
    | 0x58 | 0x5E | 0x5F => .hiddenData
    | _ => .ground

def afterVisible (m : ControlMode) (b : UInt8) : ControlMode :=
  let choose (sign digit letter : ControlMode) : ControlMode :=
    if b < 0x30 then sign else if b < 0x40 then digit else letter
  match m with
  | .ground => .ground
  | .escape => afterEscape b
  | .escapeEnd => choose .escapeEnd .ground .ground
  | .command | .parameters => choose .commandEnd .parameters .ground
  | .commandEnd => choose .commandEnd .ground .ground
  | .device | .deviceParameters => choose .deviceEnd .deviceParameters .deviceData
  | .deviceEnd => choose .deviceEnd .deviceData .deviceData
  | .deviceData => .deviceData
  | .systemData => .systemData
  | .hiddenData => .hiddenData

def next (m : ControlMode) (b : UInt8) : ControlMode :=
  if b = 0x18 || b = 0x1A then .ground
  else if b = 0x1B then (if m = .device then .deviceData else .escape)
  else if m.isData then
    if b = 0x9C || m = .systemData && b = 0x07 then .ground else m
  else if 0x80 ≤ b then afterHigh b
  else if b = 0x7F then m
  else if 0x20 ≤ b then m.afterVisible b
  else if m = .device && 0x08 ≤ b && b ≤ 0x0D then .deviceData
  else m

end ControlMode

/-! Columns. -/

/-- Ideographs of later standards are still narrow here. -/
def narrowIdeographs : Ranges := .ofString "2ffc-3 1f0"

/-- Pictographs that are text unless something else is asked for. -/
def textPictographs : Ranges := .ofString "3030 d 25a 2 1bf69 35 29-5"

def isWideCode (n : Nat) : Bool :=
  0x300 ≤ n && wideRanges.contains n && !narrowIdeographs.contains n

def charColumns (n : Nat) : Nat :=
  match ClusterClass.ofCode n with
  | .control | .joining | .joiner => 0
  | .regional => 2
  | .pictograph => if isWideCode n && !textPictographs.contains n then 2 else 1
  | _ => if n = 0x2E3A then 3 else if n = 0x2E3B then 4 else if isWideCode n then 2 else 1

/-- A selector asks for a pictograph as text or as a picture. -/
def selectedColumns (columns : Nat) (n : Nat) : Nat :=
  if n = 0xFE0E then 1 else if n = 0xFE0F then 2 else columns

/-- A flag is as wide as its first character, and a pictograph is as wide as the last selector
says. -/
def clusterColumns : List Rune → Nat
  | [] => 0
  | first :: rest =>
    let columns := charColumns first.code
    match ClusterClass.ofRune first with
    | .pictograph => rest.foldl (fun columns r => selectedColumns columns r.code) columns
    | .regional | .hangulL => columns
    | _ => rest.foldl (fun columns r => columns + charColumns r.code) columns

def leadingCluster (t : Text) : List Rune :=
  t.clusters.headD []

/-- The columns of what follows in a mode, after `skip` bytes that are already counted. -/
def columnsFrom : (skip : Nat) → ControlMode → Text → Nat
  | _, _, [] => 0
  | skip + 1, m, _ :: rest => columnsFrom skip m rest
  | 0, m, b :: rest =>
    if 0xC2 ≤ b && b ≤ 0xF4 && !m.isData then
      let cluster := leadingCluster (b :: rest)
      clusterColumns cluster + columnsFrom ((cluster.flatMap Rune.bytes).length - 1) .ground rest
    else
      let shown := m = .ground && 0x20 ≤ b && b ≤ 0x7E
      (if shown then 1 else 0) + columnsFrom 0 (m.next b) rest

def columns (t : Text) : Nat :=
  columnsFrom 0 .ground t

end MiddleEnd.Text
