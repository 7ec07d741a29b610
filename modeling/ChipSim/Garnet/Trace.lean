import Mathlib.Data.Nat.Sqrt
import ChipSim.Lib.Words
import ChipSim.Orchestrator

/-!
# The network trace

The communication simulator writes the entries of its traffic matrices to a text file, one row
each, and the network simulator reads the rows back, with the string functions of C. A row names
the network interfaces at both ends; the interfaces are attached to routers by the topology.
-/

namespace ChipSim

open Lib

namespace Garnet

/-! ## Writing -/

/-- A positive entry of a traffic matrix, with the ids of its matrix. -/
structure TrafficEntry where
  src : ℕ
  dst : ℕ
  flits : ℕ
  networkIdx : ℕ
  inputIdx : ℕ
  phaseId : ℕ
deriving DecidableEq

/-- The positive entries of one matrix, row by row. -/
def matrixEntries (input : SimulatorInput) : List TrafficEntry :=
  input.1.zipIdx.flatMap fun row => row.1.zipIdx.filterMap fun cell =>
    if 0 < cell.1 then some ⟨row.2, cell.2, cell.1, input.2.1, input.2.2.1, input.2.2.2⟩
    else none

/-- The matrices of a system of `n` chiplets. -/
def Square (n : ℕ) (inputs : List SimulatorInput) : Prop :=
  ∀ input ∈ inputs, input.1.length = n ∧ ∀ row ∈ input.1, row.length = n

/-- `traffic_data`. -/
def trafficData (inputs : List SimulatorInput) : List TrafficEntry := inputs.flatMap matrixEntries

/-- `garnet_row`. -/
def garnetRow (e : TrafficEntry) : String :=
  let sourcePe := e.src
  let destPe := e.dst
  let destNi := destPe + 100
  let numPackets := e.flits
  let networkIdx := e.networkIdx
  let inputIdx := e.inputIdx
  let phaseId := e.phaseId
  s!"1 {sourcePe} {sourcePe} {destNi} {destPe} 0 {numPackets} {networkIdx} {inputIdx} {phaseId}"

/-- `int(x.split()[0])` of a row. -/
def rowCycle (row : String) : ℕ := Nat.ofDigitChars 10 (row.toList.takeWhile (· ≠ ' ')) 0

/-- The rows sorted by their cycle; Python's sort is stable. -/
def sortRows (rows : List String) : List String :=
  rows.insertionSort fun a b => rowCycle a ≤ rowCycle b

/-- The first line of the file. -/
def header : String :=
  "# cycle i_ni i_router o_ni o_router vnet flits network_idx input_idx phase_id"

/-- The text of the file. -/
def fileText (lines : List String) : List Char := lines.flatMap fun line => line.toList ++ ['\n']

/-- `_prepare_garnet_traffic_files`: the text of the file; without traffic no file is written. -/
def prepareGarnetTrafficFiles (inputs : List SimulatorInput) : Option (List Char) :=
  let data := trafficData inputs
  if data.isEmpty then none else some (fileText (header :: sortRows (data.map garnetRow)))

/-- `total_packets` of `simulate_communication`. -/
def totalPackets (inputs : List SimulatorInput) : ℕ :=
  (inputs.map fun input => (input.1.map List.sum).sum).sum

/-! ## The string functions of C -/

/-- `fgets` with room for `n` characters: up to the end of the line, and what follows. -/
def fgets : ℕ → List Char → List Char × List Char
  | 0, file => ([], file)
  | _ + 1, [] => ([], [])
  | n + 1, c :: file =>
    if c = '\n' then ([c], file)
    else
      let r := fgets n file
      (c :: r.1, r.2)

/-- `DELIMITER`. -/
def isDelimiter (c : Char) : Bool := c = ' ' || c = ':'

/-- The tokens `strtok` finds. -/
def strtok (line : List Char) : List (List Char) := words isDelimiter line

/-- `isspace`. -/
def isCSpace (c : Char) : Bool :=
  c = ' ' || c = '\t' || c = '\n' || c = '\x0b' || c = '\x0c' || c = '\r'

/-- `strtol` in base ten: the leading digits, limited to `64` bits. -/
def strtol (token : List Char) : ℤ :=
  let number (digits : List Char) : ℤ := Nat.ofDigitChars 10 (digits.takeWhile Char.isDigit) 0
  let value := match token.dropWhile isCSpace with
    | '-' :: digits => -number digits
    | '+' :: digits => number digits
    | digits => number digits
  max (-2 ^ 63) (min (2 ^ 63 - 1) value)

/-- `atoi` of the C library: `strtol`, cut to `32` bits. -/
def atoi (token : List Char) : ℤ := (strtol token).bmod (2 ^ 32)

/-! ## Reading -/

/-- `NetworkTraceRecord`. -/
structure NetworkTraceRecord where
  time : ℤ
  srcId : ℤ
  srcRouterId : ℤ
  destId : ℤ
  destRouterId : ℤ
  vnet : ℤ
  numFlits : ℤ
  networkIdx : ℤ
  inputIdx : ℤ
  phaseId : ℤ
deriving DecidableEq

/-- The packet of a row; a missing token among the first seven is a null pointer. -/
def extractPacket : List (List Char) → Option NetworkTraceRecord
  | time :: src :: srcRouter :: dest :: destRouter :: vnet :: flits :: ids => some
    { time := atoi time
      srcId := atoi src
      srcRouterId := atoi srcRouter
      destId := atoi dest
      destRouterId := atoi destRouter
      vnet := atoi vnet
      numFlits := atoi flits
      networkIdx := (ids[0]?.map atoi).getD 0
      inputIdx := (ids[1]?.map atoi).getD 0
      phaseId := (ids[2]?.map atoi).getD 0 }
  | _ => none

/-- `id >= m_nis.size()`: the id is converted to an unsigned number. -/
def outOfRange (numNis : ℕ) (id : ℤ) : Prop := id < 0 ∨ numNis ≤ id

instance (numNis : ℕ) (id : ℤ) : Decidable (outOfRange numNis id) :=
  inferInstanceAs (Decidable (_ ∨ _))

/-- Packets with an interface that does not exist are sent from or to interface `0`. -/
def remap (numNis : ℕ) (r : NetworkTraceRecord) : NetworkTraceRecord :=
  if outOfRange numNis r.srcId then { r with srcId := 0, srcRouterId := 0 }
  else if outOfRange numNis r.destId then { r with destId := 0, destRouterId := 0 }
  else r

/-- `GarnetNetwork::wakeup`, called again for every row: the packet that was read before is
injected, and the next row is read. The result is the packets injected from here on; `none` is a
null pointer. All rows have the cycle `1`, so the calls follow each other. -/
def wakeup (numNis : ℕ) (maxPackets : ℤ) :
    ℕ → Option NetworkTraceRecord → ℕ → List Char → Option (List NetworkTraceRecord)
  | 0, _, _, _ => some []
  | fuel + 1, nextPacket, numInjected, file =>
    let packets := nextPacket.toList
    let numInjected := numInjected + packets.length
    match file with
    -- end of file
    | [] => some packets
    | c :: cs =>
      let r := fgets 99 (c :: cs)
      match strtok r.1 with
      -- a blank line ends the reading
      | [] => some packets
      | token :: tokens =>
        match extractPacket (token :: tokens) with
        | none => none
        | some packet =>
          if maxPackets < 0 ∨ (numInjected : ℤ) ≤ maxPackets then
            (wakeup numNis maxPackets fuel (some (remap numNis packet)) numInjected r.2).map
              (packets ++ ·)
          else some packets

/-- The packets injected from a file, whose first line is skipped. -/
def readTrace (numNis : ℕ) (maxPackets : ℤ) (file : List Char) :
    Option (List NetworkTraceRecord) :=
  let rows := (fgets 999 file).2
  wakeup numNis maxPackets (rows.length + 1) none 0 rows

/-! ## Topology -/

/-- `AnyNET_XY` without `--mesh-rows`: the number of routers is the square of a positive number. -/
def acceptedByAnyNet (numRouters : ℕ) : Bool :=
  let numRows := numRouters.sqrt
  decide (numRows ≠ 0 ∧ numRows * numRows = numRouters)

/-- The router an interface is attached to. -/
def routerOf (numRouters : ℕ) (ni : ℤ) : ℤ := ni % numRouters

/-- Write the matrices and read them back, with two interfaces for each of the `n` chiplets. -/
def readBack (n : ℕ) (inputs : List SimulatorInput) : Option (List NetworkTraceRecord) :=
  match prepareGarnetTrafficFiles inputs with
  | none => some []
  | some file => readTrace (2 * n) (totalPackets inputs - 1) file

end Garnet

end ChipSim
