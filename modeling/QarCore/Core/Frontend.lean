import QarCore.Core.State

/-!
# Fetch and decode

One clock edge of the fetch queue (IF buffer, prefetch slot, outstanding request), the ID stage, the
EX registers and the instruction cache.  The blocks below are the non-blocking assignments of the
source in their order: each reads the registers `f` before the edge and updates the next value `n`,
so that where two blocks assign one register the later one wins.
-/

namespace QarCore

/-- What the rest of the core and the instruction memory tell the front end in one cycle. -/
structure FrontWires where
  /-- `trap_request || flush_pipe` -/
  flush : Bool
  /-- `trap_request ? trap_target : branch_target` -/
  redirect : Word
  imemReady : Bool
  imemRdata : Word
  stallEx : Bool
  loadUseHazard : Bool
  forwardRs1 : Word
  forwardRs2 : Word

namespace Front

/-! ## Handshake wires -/

def exCanAccept (f : Front) (w : FrontWires) : Bool := !f.ex.valid || !w.stallEx

def idStall (f : Front) (w : FrontWires) : Bool :=
  w.loadUseHazard || (!f.exCanAccept w && f.id.valid)

def idAccept (f : Front) (w : FrontWires) : Bool := f.ifBuf.valid && !f.id.valid && !f.idStall w

/-- `id_valid && !id_stall && ex_can_accept`: ID hands its instruction to EX. -/
def idToEx (f : Front) (w : FrontWires) : Bool := f.id.valid && !f.idStall w && f.exCanAccept w

def fetchBufferOccupancy (f : Front) : Nat := f.ifBuf.valid.toNat + f.prefetchSlot.valid.toNat

def slotToIf (f : Front) (w : FrontWires) : Bool :=
  f.prefetchSlot.valid && (!f.ifBuf.valid || f.idAccept w)

def ifFetchTarget (f : Front) (w : FrontWires) : Bool :=
  (!f.ifBuf.valid || f.idAccept w) && !f.slotToIf w

/-! ## Instruction cache -/

/-- `PREFETCH_DEPTH` -/
def prefetchDepth : Nat := 2

/-- `addr[ICACHE_INDEX_BITS+1:2]`, or 0 without a cache. -/
def cacheIndex (cfg : Config) (addr : Word) : Nat :=
  if cfg.icacheEnabled then addr.toNat / 4 % 2 ^ cfg.icacheIndexBits else 0

/-- `addr[31:ICACHE_INDEX_BITS+2]` -/
def cacheTag (cfg : Config) (addr : Word) : Nat := addr.toNat / 4 / 2 ^ cfg.icacheIndexBits

def nextCacheIndex (cfg : Config) (f : Front) : Nat := cacheIndex cfg f.pcFetch
def nextCacheTag (cfg : Config) (f : Front) : Nat := cacheTag cfg f.pcFetch

def icacheLookupHit (cfg : Config) (f : Front) : Bool :=
  cfg.icacheEnabled && (f.icache (f.nextCacheIndex cfg)).valid &&
    (f.icache (f.nextCacheIndex cfg)).tag == f.nextCacheTag cfg

def icacheLookupWord (cfg : Config) (f : Front) : Word :=
  if f.icacheLookupHit cfg then (f.icache (f.nextCacheIndex cfg)).data else 0#32

/-- `!fetch_req_pending && (fetch_buffer_occupancy < PREFETCH_DEPTH)` -/
def canFetch (f : Front) : Bool :=
  !f.fetchReqPending && decide (f.fetchBufferOccupancy < prefetchDepth)

/-! ## The blocks of the clock edge -/

def flushPipe (w : FrontWires) (n : Front) : Front :=
  { n with
    pcFetch := w.redirect
    fetchReqPending := false
    fetchReqCacheable := false
    ifBuf := { n.ifBuf with valid := false }
    prefetchSlot := { n.prefetchSlot with valid := false }
    id := { n.id with valid := false }
    ex := { n.ex with valid := false } }

/-- A cache hit fills IF or the slot; a miss starts a request. -/
def issueFetch (cfg : Config) (f : Front) (w : FrontWires) (n : Front) : Front :=
  if f.canFetch then
    if f.icacheLookupHit cfg then
      if f.ifFetchTarget w then
        { n with ifBuf := ⟨true, f.icacheLookupWord cfg, f.pcFetch⟩, pcFetch := f.pcFetch + 4#32 }
      else
        { n with prefetchSlot := ⟨true, f.icacheLookupWord cfg, f.pcFetch⟩,
                 pcFetch := f.pcFetch + 4#32 }
    else
      { n with
        fetchReqPending := true
        fetchReqAddr := f.pcFetch
        fetchReqCacheable := cfg.icacheEnabled
        icacheFillIndex := f.nextCacheIndex cfg
        icacheFillTag := f.nextCacheTag cfg
        pcFetch := f.pcFetch + 4#32 }
  else n

def acceptId (f : Front) (w : FrontWires) (n : Front) : Front :=
  if f.idAccept w then
    { n with id := ⟨true, f.ifBuf.instr, f.ifBuf.pc⟩, ifBuf := { n.ifBuf with valid := false } }
  else n

def shiftSlot (f : Front) (w : FrontWires) (n : Front) : Front :=
  if f.slotToIf w then
    { n with ifBuf := ⟨true, f.prefetchSlot.instr, f.prefetchSlot.pc⟩,
             prefetchSlot := { n.prefetchSlot with valid := false } }
  else n

/-- `icache_*[icache_fill_index] <= ...` -/
def fillCache (cfg : Config) (f : Front) (w : FrontWires) (n : Front) : Front :=
  if f.fetchReqCacheable && cfg.icacheEnabled then
    { n with icache := fun j ↦ if j = f.icacheFillIndex then ⟨true, f.icacheFillTag, w.imemRdata⟩
                                else n.icache j }
  else n

def fetchResponse (cfg : Config) (f : Front) (w : FrontWires) (n : Front) : Front :=
  if f.fetchReqPending && w.imemReady then
    let n := { n with fetchReqPending := false }
    let n :=
      if f.ifFetchTarget w then { n with ifBuf := ⟨true, w.imemRdata, f.fetchReqAddr⟩ }
      else { n with prefetchSlot := ⟨true, w.imemRdata, f.fetchReqAddr⟩ }
    { f.fillCache cfg w n with fetchReqCacheable := false }
  else n

def advanceEx (f : Front) (w : FrontWires) (n : Front) : Front :=
  if f.idToEx w then
    { n with ex := ⟨true, f.id.instr, f.id.pc, w.forwardRs1, w.forwardRs2⟩,
             id := { n.id with valid := false } }
  else if f.ex.valid && !w.stallEx then { n with ex := { n.ex with valid := false } }
  else n

def next (cfg : Config) (f : Front) (w : FrontWires) : Front :=
  if w.flush then flushPipe w f
  else
    f.advanceEx w (f.fetchResponse cfg w (f.shiftSlot w (f.acceptId w (f.issueFetch cfg w f))))

end Front

end QarCore
