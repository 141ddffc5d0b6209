import QarCore.Hal.Mmio
import QarCore.Periph.SpiQueue

/-!
# SPI driver

The functions of `spi.h` on the SPI master in internal loopback.  In every mode, at every divider and however
the accesses are spaced, the bytes that are written come back in order, as long as no more than four are
under way.
-/

namespace QarCore

namespace Hal

open Clocked (Driver Ends Polls Ring)
open Rv32i (Access)

/-! ## Functions -/

def qarSpi0Base : Word := 0x40004000#32

def qarSpiCtrl : Word := 0x00#32
def qarSpiStatus : Word := 0x04#32
def qarSpiClkdiv : Word := 0x08#32
def qarSpiTxdata : Word := 0x0C#32
def qarSpiRxdata : Word := 0x10#32
def qarSpiCs : Word := 0x14#32

def qarSpiCtrlEnable : Word := 1#32 <<< 0
def qarSpiCtrlLoopback : Word := 1#32 <<< 4

def qarSpiStatusTxReady : Word := 1#32 <<< 0
def qarSpiStatusRxValid : Word := 1#32 <<< 1

def qarSpiInit (base clkDiv ctrlFlags : Word) : Code Unit := do
  mmio32Write base qarSpiClkdiv clkDiv
  mmio32Write base qarSpiCtrl (ctrlFlags ||| qarSpiCtrlEnable)

def qarSpiSetCs (base mask : Word) : Code Unit := mmio32Write base qarSpiCs mask

def qarSpiWrite (base value : Word) : Code Unit := do
  let _ ← mmio32Await base qarSpiStatus fun s ↦ s &&& qarSpiStatusTxReady != 0#32
  mmio32Write base qarSpiTxdata value

def qarSpiRead (base : Word) : Code Word := do
  let _ ← mmio32Await base qarSpiStatus fun s ↦ s &&& qarSpiStatusRxValid != 0#32
  mmio32Read base qarSpiRxdata

/-- `spi_exchange` of the example. -/
def spiExchange (value : Byte) : Code Byte := do
  qarSpiWrite qarSpi0Base (value.setWidth 32)
  let _ ← mmio32Await qarSpi0Base qarSpiStatus fun s ↦ s &&& qarSpiStatusRxValid != 0#32
  let r ← mmio32Read qarSpi0Base qarSpiRxdata
  return (r &&& 0xFF#32).setWidth 8

/-! ## On the chip -/

/-- The SPI master loops back, and has `l` under way. -/
structure SpiHolds (l : List Byte) (v : Devices) : Prop where
  loops : v.spi0.Loops
  pipe : v.spi0.pipe = l

variable {α : Type} {v : Devices} {o : Outside} {acc : Option Access} {l : List Byte} {b : Byte}

/-- The inputs of the SPI master in a cycle with or without an access. -/
def spiSees (acc : Option Access) (o : Outside) : Spi.Inputs :=
  Devices.spiInputs (acc.elim .idle busOfAccess) o.pins

theorem chip_spi : (chip.step v acc o).spi0 = v.spi0.posedge (spiSees acc o) := rfl

theorem spiSees_none : (spiSees none o).bus = BusAccess.none := PeriphStart.busOf_idle .spi0

theorem spiSees_load {a : Word} (h : windowOf a = some .spi0) :
    (spiSees (some (.load a)) o).bus = ⟨false, true, a.extractLsb' 2 6, 0⟩ := busOf_load h

theorem spiSees_store {a d : Word} (h : windowOf a = some .spi0) :
    (spiSees (some (.store a d)) o).bus = ⟨true, false, a.extractLsb' 2 6, d⟩ := busOf_store h

theorem SpiHolds.idle (h : SpiHolds l v) : SpiHolds l (chip.step v none o) := by
  have hbus := spiSees_none (o := o)
  obtain ⟨hloops, hpipe⟩ := h.loops.quiet (i := spiSees none o) (by rw [hbus]; rfl) (by rw [hbus]; rfl)
  exact ⟨hloops, hpipe.trans h.pipe⟩

theorem SpiHolds.status (h : SpiHolds l v) :
    SpiHolds l (chip.step v (some (.load (qarSpi0Base + qarSpiStatus))) o) := by
  have hbus := spiSees_load (a := qarSpi0Base + qarSpiStatus) (o := o) rfl
  obtain ⟨hloops, hpipe⟩ := h.loops.quiet (by rw [hbus]) (by rw [hbus]; rfl)
  exact ⟨hloops, hpipe.trans h.pipe⟩

theorem SpiHolds.write {value : Word} (h : SpiHolds l v) (hroom : l.length < 4) :
    SpiHolds (l ++ [value.setWidth 8])
      (chip.step v (some (.store (qarSpi0Base + qarSpiTxdata) value)) o) := by
  have hbus := spiSees_store (a := qarSpi0Base + qarSpiTxdata) (d := value) (o := o) rfl
  obtain ⟨hloops, hpipe⟩ := h.loops.push hbus (by rw [h.pipe]; exact hroom)
  exact ⟨hloops, hpipe.trans (by rw [h.pipe])⟩

theorem SpiHolds.read (h : SpiHolds (b :: l) v) (hrx : v.spi0.rxFifo.empty = false) :
    SpiHolds l (chip.step v (some (.load (qarSpi0Base + qarSpiRxdata))) o) := by
  have hbus := spiSees_load (a := qarSpi0Base + qarSpiRxdata) (o := o) rfl
  obtain ⟨hloops, hpipe⟩ := h.loops.pop hbus hrx
  exact ⟨hloops, hpipe.trans (by rw [h.pipe]; rfl)⟩

/-! ## Answers -/

theorem chip_status : chip.answer v (.load (qarSpi0Base + qarSpiStatus)) o = v.spi0.statusValue := by
  have hbus := spiSees_load (a := qarSpi0Base + qarSpiStatus) (o := o) rfl
  change v.spi0.readData (spiSees (some (.load (qarSpi0Base + qarSpiStatus))) o).bus = _
  rw [hbus]
  rfl

theorem chip_rxdata :
    chip.answer v (.load (qarSpi0Base + qarSpiRxdata)) o = v.spi0.rxFifo.front.setWidth 32 := by
  have hbus := spiSees_load (a := qarSpi0Base + qarSpiRxdata) (o := o) rfl
  change v.spi0.readData (spiSees (some (.load (qarSpi0Base + qarSpiRxdata))) o).bus = _
  rw [hbus]
  rfl

theorem chip_tx_ready : (chip.answer v (.load (qarSpi0Base + qarSpiStatus)) o &&& qarSpiStatusTxReady != 0#32) =
    !v.spi0.txFifo.wideFull := by
  rw [chip_status, qarSpiStatusTxReady, and_bit_ne_zero _ (by decide), Spi.statusValue_fifos.1]

theorem chip_rx_valid : (chip.answer v (.load (qarSpi0Base + qarSpiStatus)) o &&& qarSpiStatusRxValid != 0#32) =
    !v.spi0.rxFifo.empty := by
  rw [chip_status, qarSpiStatusRxValid, and_bit_ne_zero _ (by decide), Spi.statusValue_fifos.2]

theorem SpiHolds.front_eq (h : SpiHolds (b :: l) v) (hrx : v.spi0.rxFifo.empty = false) :
    v.spi0.rxFifo.front = b := by
  have hpos : 0 < v.spi0.rxFifo.count := by
    rw [Nat.pos_iff_ne_zero, Ne, Ring.count_eq_zero, hrx]
    exact Bool.false_ne_true
  have hpipe := h.pipe
  rw [Spi.pipe, Ring.contents_popAt hpos] at hpipe
  exact (List.cons.inj hpipe).1

/-! ## Functions on the chip -/

-- Below four bytes there is room at once.
theorem spi_tx_polls (hroom : l.length < 4) : Polls chip anyOutside (SpiHolds l)
    (.load (qarSpi0Base + qarSpiStatus)) (fun s ↦ s &&& qarSpiStatusTxReady != 0#32) (fun _ ↦ True)
    (fun _ ↦ 0) where
  answer v o _ h := by
    have hfull : v.spi0.txFifo.wideFull = false := by
      have hle : v.spi0.txFifo.count ≤ v.spi0.pipe.length := by
        rw [Spi.pipe, List.length_append, ← Ring.contents_length]
        omega
      rw [h.pipe] at hle
      rw [← Bool.not_eq_true, Ring.wideFull_iff (by decide)]
      omega
    rw [chip_tx_ready, hfull]
    exact ⟨fun _ ↦ trivial, fun _ ↦ rfl⟩
  idle _ _ _ h := h.idle
  keeps _ _ _ _ _ := trivial
  idleFalls _ _ _ _ hno := absurd trivial hno
  miss _ _ _ _ hno := absurd trivial hno
  missFalls _ _ _ _ hno := absurd trivial hno

-- A byte that is under way arrives.
theorem spi_rx_polls : Polls chip anyOutside (SpiHolds (b :: l))
    (.load (qarSpi0Base + qarSpiStatus)) (fun s ↦ s &&& qarSpiStatusRxValid != 0#32)
    (fun v ↦ v.spi0.rxFifo.empty = false) (fun v ↦ v.spi0.rank) where
  answer v o _ h := by
    rw [chip_rx_valid, Bool.not_eq_true']
  idle _ _ _ h := h.idle
  keeps v o _ h hrx := h.loops.arrived (i := spiSees none o) (by rw [spiSees_none]; rfl) hrx
  idleFalls v o _ h hno := by
    refine h.loops.falls (i := spiSees none o) ?_ (by simpa using hno) (by rw [spiSees_none]; rfl)
    rw [h.pipe]
    exact List.cons_ne_nil _ _
  miss _ _ _ h _ := h.status
  missFalls v o _ h hno := by
    have hbus := spiSees_load (a := qarSpi0Base + qarSpiStatus) (o := o) rfl
    refine h.loops.falls (i := spiSees _ o) ?_ (by simpa using hno) (by rw [hbus])
    rw [h.pipe]
    exact List.cons_ne_nil _ _

theorem qarSpiWrite_ends (value : Word) (hroom : l.length < 4) :
    Ends chip anyOutside (SpiHolds l) (qarSpiWrite qarSpi0Base value)
      fun _ ↦ SpiHolds (l ++ [value.setWidth 8]) := by
  change Ends chip anyOutside _ (.poll _ _ fun _ ↦ .act _ fun _ ↦ .done ()) _
  refine (spi_tx_polls hroom).ends (M := fun _ ↦ SpiHolds l) (N := fun _ ↦ SpiHolds l)
    (fun _ _ _ h _ ↦ h.status) (fun _ _ _ _ h ↦ h.idle) fun _ ↦ ?_
  refine Ends.act (M := fun _ ↦ SpiHolds (l ++ [value.setWidth 8]))
    (N := fun _ ↦ SpiHolds (l ++ [value.setWidth 8])) (fun _ _ _ h ↦ h.idle)
    (fun _ _ _ h ↦ h.write hroom) (fun _ _ _ _ h ↦ h.idle) fun _ ↦ ?_
  exact Ends.done fun _ h ↦ h

theorem spi_poll_ends {Q : α → Devices → Prop} {next : Word → Code α}
    (hnext : ∀ d, Ends chip anyOutside (fun v ↦ SpiHolds (b :: l) v ∧ v.spi0.rxFifo.empty = false) (next d) Q) :
    Ends chip anyOutside (SpiHolds (b :: l)) (.poll (.load (qarSpi0Base + qarSpiStatus))
      (fun s ↦ s &&& qarSpiStatusRxValid != 0#32) next) Q := by
  refine spi_rx_polls.ends (M := fun _ v ↦ SpiHolds (b :: l) v ∧ v.spi0.rxFifo.empty = false) ?_ ?_ hnext
  · intro v o _ h hrx
    have hbus := spiSees_load (a := qarSpi0Base + qarSpiStatus) (o := o) rfl
    exact ⟨h.status, h.loops.arrived (i := spiSees _ o) (by rw [hbus]; rfl) hrx⟩
  · intro _ v o _ h
    exact ⟨h.1.idle, h.1.loops.arrived (i := spiSees none o) (by rw [spiSees_none]; rfl) h.2⟩

-- The read of a byte that has arrived.
theorem spi_rxdata_ends {Q : α → Devices → Prop} {next : Word → Code α}
    (hnext : Ends chip anyOutside (SpiHolds l) (next (b.setWidth 32)) Q) :
    Ends chip anyOutside (fun v ↦ SpiHolds (b :: l) v ∧ v.spi0.rxFifo.empty = false)
      (.act (.load (qarSpi0Base + qarSpiRxdata)) next) Q := by
  refine Ends.act (M := fun d v ↦ d = b.setWidth 32 ∧ SpiHolds l v)
    (N := fun d v ↦ d = b.setWidth 32 ∧ SpiHolds l v) ?_ ?_ ?_ fun d ↦ Ends.of_fact ?_
  · intro v o _ h
    exact ⟨h.1.idle, h.1.loops.arrived (i := spiSees none o) (by rw [spiSees_none]; rfl) h.2⟩
  · intro v o _ h
    exact ⟨by rw [chip_rxdata, h.1.front_eq h.2], h.1.read h.2⟩
  · intro _ v o _ h
    exact ⟨h.1, h.2.idle⟩
  · rintro rfl
    exact hnext

theorem qarSpiRead_ends : Ends chip anyOutside (SpiHolds (b :: l)) (qarSpiRead qarSpi0Base)
    fun d v ↦ d = b.setWidth 32 ∧ SpiHolds l v :=
  spi_poll_ends fun _ ↦ spi_rxdata_ends <| Ends.done fun _ h ↦ ⟨rfl, h⟩

/-! ## Set-up -/

/-- The master is at rest, and CTRL and CS_SELECT hold these words if they are given. -/
structure SpiSetUp (ctrl cs : Option Word) (v : Devices) : Prop where
  quiet : v.spi0.Quiet
  ctrl : ∀ w, ctrl = some w → v.spi0.ctrl = w
  cs : ∀ w, cs = some w → v.spi0.csSelect = w

variable {ctrl cs : Option Word}

theorem SpiSetUp.idle (h : SpiSetUp ctrl cs v) : SpiSetUp ctrl cs (chip.step v none o) := by
  have hbus := spiSees_none (o := o)
  refine ⟨h.quiet.next (i := spiSees none o) (by rw [hbus]; rfl), fun w hw ↦ ?_, fun w hw ↦ ?_⟩
  · rw [chip_spi, Spi.posedge_ctrl, hbus, ← h.ctrl w hw]
    rfl
  · rw [chip_spi, Spi.posedge_csSelect, hbus, ← h.cs w hw]
    rfl

-- A write to one of the three registers; the other two keep what they held.
theorem SpiSetUp.store {offset data : Word} (h : SpiSetUp ctrl cs v)
    (hwin : windowOf (qarSpi0Base + offset) = some .spi0)
    (hoff : (qarSpi0Base + offset).extractLsb' 2 6 ≠ 0x3#6) :
    SpiSetUp (if (qarSpi0Base + offset).extractLsb' 2 6 = 0x0#6 then some data else ctrl)
      (if (qarSpi0Base + offset).extractLsb' 2 6 = 0x5#6 then some data else cs)
      (chip.step v (some (.store (qarSpi0Base + offset) data)) o) := by
  have hbus := spiSees_store (d := data) (o := o) hwin
  refine ⟨h.quiet.next (i := spiSees _ o) (by rw [hbus]; simp [Spi.txPush, hoff]), fun w hw ↦ ?_, fun w hw ↦ ?_⟩
  · rw [chip_spi, Spi.posedge_ctrl, hbus]
    by_cases h0 : (qarSpi0Base + offset).extractLsb' 2 6 = 0x0#6
    · rw [if_pos h0] at hw
      simpa [h0] using hw
    · rw [if_neg h0] at hw
      simpa [h0] using h.ctrl w hw
  · rw [chip_spi, Spi.posedge_csSelect, hbus]
    by_cases h5 : (qarSpi0Base + offset).extractLsb' 2 6 = 0x5#6
    · rw [if_pos h5] at hw
      simpa [h5] using hw
    · rw [if_neg h5] at hw
      simpa [h5] using h.cs w hw

theorem spi_store_ends (offset : Word) {data : Word} (hwin : windowOf (qarSpi0Base + offset) = some .spi0)
    (hoff : (qarSpi0Base + offset).extractLsb' 2 6 ≠ 0x3#6) :
    Ends chip anyOutside (SpiSetUp ctrl cs) (mmio32Write qarSpi0Base offset data) fun _ ↦
      SpiSetUp (if (qarSpi0Base + offset).extractLsb' 2 6 = 0x0#6 then some data else ctrl)
        (if (qarSpi0Base + offset).extractLsb' 2 6 = 0x5#6 then some data else cs) :=
  Ends.act (fun _ _ _ h ↦ h.idle) (M := fun _ ↦ SpiSetUp _ _) (N := fun _ ↦ SpiSetUp _ _)
    (fun _ _ _ h ↦ h.store hwin hoff) (fun _ _ _ _ h ↦ h.idle) fun _ ↦ Ends.done fun _ h ↦ h

-- An enabled master in loopback with a chip select has nothing under way yet.
theorem SpiSetUp.holds {control mask : Word} (h : SpiSetUp (some control) (some mask) v) (henable : control.getLsbD 0)
    (hloop : control.getLsbD 4) (hmask : mask.extractLsb' 0 4 ≠ 0#4) : SpiHolds [] v := by
  refine ⟨⟨?_, ?_, ?_, ?_⟩, h.quiet.pipe⟩
  · rw [Spi.ctrlEnable, h.ctrl _ rfl]
    exact henable
  · rw [Spi.ctrlLoopback, h.ctrl _ rfl]
    exact hloop
  · rw [h.cs _ rfl]
    exact hmask
  · rw [h.quiet.pipe]
    exact Nat.zero_le _

theorem spi_setUp_ends (clkDiv flags mask : Word) (hflags : flags.getLsbD 4) (hmask : mask.extractLsb' 0 4 ≠ 0#4) :
    Ends chip anyOutside (fun v ↦ v.spi0.Quiet)
      (do qarSpiInit qarSpi0Base clkDiv flags; qarSpiSetCs qarSpi0Base mask) fun _ ↦ SpiHolds [] := by
  have hinit : Ends chip anyOutside (SpiSetUp none none) (qarSpiInit qarSpi0Base clkDiv flags) fun _ ↦
      SpiSetUp (some (flags ||| qarSpiCtrlEnable)) none :=
    Ends.bind (spi_store_ends qarSpiClkdiv rfl (by decide)) fun _ ↦
      spi_store_ends qarSpiCtrl rfl (by decide)
  have hcs : Ends chip anyOutside (SpiSetUp (some (flags ||| qarSpiCtrlEnable)) none)
      (qarSpiSetCs qarSpi0Base mask) fun _ ↦ SpiSetUp (some (flags ||| qarSpiCtrlEnable)) (some mask) :=
    spi_store_ends qarSpiCs rfl (by decide)
  refine (Ends.bind hinit fun _ ↦ hcs).mono (fun v hv ↦ ⟨hv, nofun, nofun⟩) fun _ v h ↦ h.holds ?_ ?_ hmask
  · rw [BitVec.getLsbD_or]
    exact Bool.or_true _
  · rw [BitVec.getLsbD_or, hflags]
    rfl

/-! ## Lists of bytes -/

/-- Sends up to four bytes before the first one is read back. -/
def spiBurst (bytes : List Byte) : Code (List Byte) := do
  let _ ← Driver.collect (fun b ↦ qarSpiWrite qarSpi0Base (b.setWidth 32)) bytes
  Driver.collect (fun _ ↦ do
    let r ← qarSpiRead qarSpi0Base
    return r.setWidth 8) bytes

theorem setWidth_byte (b : Byte) : (b.setWidth 32).setWidth 8 = b := by
  rw [BitVec.setWidth_setWidth_of_le _ (by decide), BitVec.setWidth_eq]

theorem spi_writes_end (m l : List Byte) (hfit : (m ++ l).length ≤ 4) :
    Ends chip anyOutside (SpiHolds m) (Driver.collect (fun b ↦ qarSpiWrite qarSpi0Base (b.setWidth 32)) l)
      fun _ ↦ SpiHolds (m ++ l) := by
  induction l generalizing m with
  | nil =>
    rw [List.append_nil]
    exact Ends.done fun _ h ↦ h
  | cons b l ih =>
    have hsplit : m ++ b :: l = (m ++ [b]) ++ l := by rw [List.append_assoc]; rfl
    have hwrite := qarSpiWrite_ends (l := m) (b.setWidth 32) (by
      rw [List.length_append, List.length_cons] at hfit
      omega)
    rw [setWidth_byte] at hwrite
    rw [hsplit] at hfit ⊢
    exact Ends.bind hwrite fun _ ↦ Ends.bind (ih _ hfit) fun _ ↦ Ends.done fun _ h ↦ h

theorem spi_reads_end (l : List Byte) : Ends chip anyOutside (SpiHolds l)
    (Driver.collect (fun _ ↦ (qarSpiRead qarSpi0Base).bind fun r ↦ .done (r.setWidth 8)) l)
      fun r v ↦ r = l ∧ SpiHolds [] v := by
  induction l with
  | nil => exact Ends.done fun _ h ↦ ⟨rfl, h⟩
  | cons b l ih =>
    refine Ends.bind (Q := fun d v ↦ d = b ∧ SpiHolds l v) ?_ fun d ↦ Ends.of_fact fun hd ↦
      Ends.bind ih fun r ↦ Ends.of_fact fun hr ↦ ?_
    · refine Ends.bind qarSpiRead_ends fun d ↦ Ends.of_fact fun hd ↦ Ends.done fun _ h ↦ ⟨?_, h⟩
      rw [hd, setWidth_byte]
    · rw [hd, hr]
      exact Ends.done fun _ h ↦ ⟨rfl, h⟩

theorem spiBurst_ends {l : List Byte} (hfit : l.length ≤ 4) :
    Ends chip anyOutside (SpiHolds []) (spiBurst l) fun r v ↦ r = l ∧ SpiHolds [] v :=
  Ends.bind (spi_writes_end [] l hfit) fun _ ↦ spi_reads_end l

theorem spiExchange_ends (b : Byte) :
    Ends chip anyOutside (SpiHolds []) (spiExchange b) fun r v ↦ r = b ∧ SpiHolds [] v := by
  have hwrite := qarSpiWrite_ends (l := []) (b.setWidth 32) (by decide)
  rw [setWidth_byte] at hwrite
  refine Ends.bind hwrite fun _ ↦ spi_poll_ends fun _ ↦ spi_rxdata_ends (b := b) (l := []) ?_
  refine Ends.done fun _ h ↦ ⟨?_, h⟩
  have hmask : ∀ b : Byte, (b.setWidth 32 &&& 0xFF#32).setWidth 8 = b := by decide
  exact hmask b

/-- From a master at rest with empty FIFOs, as after a reset: after the set-up of the example, in any mode, at any
divider and with any chip select, however the accesses are spaced and whatever MISO does, bursts of up to four bytes
and single exchanges end, and every one of them returns the bytes that were sent. -/
theorem spi_loopback_returns (clkDiv flags mask : Word) (hflags : flags.getLsbD 4)
    (hmask : mask.extractLsb' 0 4 ≠ 0#4) (bursts : List (List Byte)) (hfit : ∀ l ∈ bursts, l.length ≤ 4)
    (bytes : List Byte) :
    Ends chip anyOutside (fun v ↦ v.spi0.Quiet)
      (do qarSpiInit qarSpi0Base clkDiv flags
          qarSpiSetCs qarSpi0Base mask
          let bs ← Driver.collect spiBurst bursts
          let es ← Driver.collect spiExchange bytes
          return (bs, es))
      fun r _ ↦ r = (bursts, bytes) := by
  have hbursts := Ends.collect_map (g := id) bursts fun l hl ↦ spiBurst_ends (hfit l hl)
  have hbytes := Ends.collect_map (g := id) bytes fun b _ ↦ spiExchange_ends b
  have hsetUp := spi_setUp_ends clkDiv flags mask hflags hmask
  have hrest : Ends chip anyOutside (SpiHolds [])
      ((Driver.collect spiBurst bursts).bind fun bs ↦ (Driver.collect spiExchange bytes).bind fun es ↦
        .done (bs, es)) fun r _ ↦ r = (bursts, bytes) := by
    refine Ends.bind hbursts fun bs ↦ Ends.of_fact fun hbs ↦ Ends.bind hbytes fun es ↦
      Ends.of_fact fun hes ↦ Ends.done fun _ _ ↦ ?_
    rw [hbs, hes, List.map_id, List.map_id]
  have hall := Ends.bind hsetUp fun _ ↦ hrest
  rwa [Driver.bind_eq, Driver.bind_assoc] at hall

theorem spi_loopback_returns_reset :
    ∃ n, (Clocked.run (Clocked.Firmware.step chip)
      ⟨Devices.reset .zeros fun _ ↦ ⟨0, 0, 0, 0⟩, do
        qarSpiInit qarSpi0Base 1#32 qarSpiCtrlLoopback
        qarSpiSetCs qarSpi0Base 0x1#32
        let bs ← Driver.collect spiBurst [[0xA5#8, 0x3C#8]]
        let es ← Driver.collect spiExchange [0x5A#8]
        return (bs, es), false⟩ everyThird n).driver = .done ([[0xA5#8, 0x3C#8]], [0x5A#8]) := by
  obtain ⟨n, r, hdone, hr⟩ := (spi_loopback_returns 1#32 qarSpiCtrlLoopback 0x1#32 rfl (by decide)
    [[0xA5#8, 0x3C#8]] (by decide) [0x5A#8]).reaches everyThird_fair
    (s := Devices.reset .zeros fun _ ↦ ⟨0, 0, 0, 0⟩) ⟨rfl, rfl, rfl⟩
  rw [hr] at hdone
  exact ⟨n, hdone⟩

end Hal

end QarCore
