/-
What the memory of the allocators is used for.

The pages are cut into pieces, each with one use: a free, held or forgotten page, or a chunk
that is free, allocated, or not on its list yet. The pieces do not overlap and every list
holds exactly the pieces of its use, so a call that writes only into the piece it moves leaves
all the others as they are.
-/

import LabKernel.Kernel.Mem

set_option autoImplicit false

namespace LabKernel.Kernel

open ByteMemory

/-! ### Lists in memory -/

/-- The list with this head holds exactly these nodes. -/
structure Listed (bytes : Memory) (head : Option Nat) (nodes : List Nat) (mine : Nat → Prop) :
    Prop where
  chain : Chain (nextOf bytes) head nodes
  distinct : nodes.Nodup
  members : ∀ node, node ∈ nodes ↔ mine node

namespace Listed

variable {bytes after : Memory} {head : Option Nat} {nodes : List Nat} {mine new : Nat → Prop}
  {node : Nat}

theorem frame (listed : Listed bytes head nodes mine) (members : ∀ node, new node ↔ mine node)
    (words : ∀ node, mine node → readWord after node = readWord bytes node) :
    Listed after head nodes new := by
  constructor
  · apply listed.chain.frame
    intro node member
    unfold nextOf
    rw [words node ((listed.members node).mp member)]
  · exact listed.distinct
  · intro node
    rw [listed.members, members]

theorem push (listed : Listed bytes head nodes mine) (outside : ¬mine node)
    (members : ∀ other, new other ↔ other = node ∨ mine other)
    (pointers : ∀ other, mine other → other ≠ 0 ∧ other < 2 ^ 64)
    (words : ∀ other, mine other →
      readWord (addToQueue bytes head node) other = readWord bytes other) :
    Listed (addToQueue bytes head node) (some node) (node :: nodes) new := by
  have valid : head.getD 0 < 2 ^ 64 ∧ (head.getD 0 = 0 → head = none) := by
    cases head with
    | none => simp
    | some first =>
        obtain ⟨rest, whole, -⟩ := listed.chain.tail
        have pointer := pointers first ((listed.members first).mp (by rw [whole]; simp))
        exact ⟨pointer.2, fun zero => absurd zero pointer.1⟩
  have link : nextOf (addToQueue bytes head node) node = head := by
    unfold nextOf addToQueue
    rw [readWord_writeWord valid.1]
    split
    · rename_i zero
      exact (valid.2 zero).symm
    · rename_i some
      cases head with
      | none => exact absurd rfl some
      | some first => rfl
  constructor
  · constructor
    · exact rfl
    · rw [link]
      apply listed.chain.frame
      intro other member
      unfold nextOf
      rw [words other ((listed.members other).mp member)]
  · rw [List.nodup_cons, listed.members]
    exact ⟨outside, listed.distinct⟩
  · intro other
    rw [List.mem_cons, listed.members, members]

theorem pop (listed : Listed bytes (some node) nodes mine)
    (members : ∀ other, new other ↔ mine other ∧ other ≠ node) :
    mine node ∧ ∃ rest, nodes = node :: rest ∧ Listed bytes (nextOf bytes node) rest new := by
  obtain ⟨rest, whole, chain⟩ := listed.chain.tail
  have distinct := listed.distinct
  rw [whole, List.nodup_cons] at distinct
  refine ⟨(listed.members node).mp (by rw [whole]; simp), rest, whole, chain, distinct.2, ?_⟩
  intro other
  rw [members, ← listed.members, whole, List.mem_cons]
  constructor
  · intro member
    constructor
    · exact Or.inr member
    · intro same
      rw [same] at member
      exact distinct.1 member
  · rintro ⟨same | member, different⟩
    · exact absurd same different
    · exact member

end Listed

/-! ### Pieces -/

/-- What a piece of memory is used for. -/
inductive Use where
  | freePage
  | heldPage
  | lostPage
  | raw (index : Nat)
  | chunk (index : Nat)
  | block (index size : Nat)
  deriving DecidableEq

def Use.length : Use → Nat
  | .freePage | .heldPage | .lostPage => pageSize
  | .raw index | .chunk index | .block index _ => chunkSize index

/-- The index of the pool, for chunks. -/
def Use.Pooled : Use → Prop
  | .raw index | .chunk index | .block index _ => index ≤ 8
  | _ => True

/-- A block is cut to its size, and its chunk has the header of its pool. -/
structure Header (poolAddr : Nat) (bytes : Memory) (chunk index size : Nat) : Prop where
  word : readWord bytes chunk = poolAddr + 8 * index
  positive : 0 < size
  fits : size + 8 ≤ chunkSize index
  own : sizeClass size = index

/-- The pieces are aligned parts of pages and do not overlap. -/
structure Pieces (pages : List Nat) (owner : Nat → Option Use) : Prop where
  aligned : ∀ addr use, owner addr = some use → addr % use.length = 0
  inside : ∀ addr use, owner addr = some use →
    ∃ page ∈ pages, page ≤ addr ∧ addr + use.length ≤ page + pageSize
  pooled : ∀ addr use, owner addr = some use → use.Pooled
  apart : ∀ addr other use use', owner addr = some use → owner other = some use' → addr ≠ other →
    addr + use.length ≤ other ∨ other + use'.length ≤ addr

/-- The lists of the allocators and what the callers have agree with the use of the pieces. -/
structure Layout (poolAddr : Nat) (pages : List Nat) (heap : Heap) (owner : Nat → Option Use)
    (free : List Nat) (pools : Nat → List Nat) : Prop where
  pieces : Pieces pages owner
  freeList : Listed heap.mem.bytes heap.mem.freePage free (fun addr => owner addr = some .freePage)
  poolList : ∀ index, Listed heap.mem.bytes (heap.mem.pool index) (pools index)
    (fun addr => owner addr = some (.chunk index))
  heldDistinct : heap.held.Nodup
  heldMembers : ∀ addr, addr ∈ heap.held ↔ owner addr = some .heldPage
  liveDistinct : heap.live.Nodup
  liveMembers : ∀ block, block ∈ heap.live ↔
    8 ≤ block.addr ∧ owner (block.addr - 8) = some (.block (sizeClass block.size) block.size)
  headers : ∀ addr index size, owner addr = some (.block index size) →
    Header poolAddr heap.mem.bytes addr index size

/-- The pages the allocator is given. -/
structure PagesOk (pages : List Nat) : Prop where
  distinct : pages.Nodup
  aligned : ∀ page ∈ pages, page % pageSize = 0
  positive : ∀ page ∈ pages, 0 < page
  fits : ∀ page ∈ pages, page + pageSize ≤ 2 ^ 64

/-! Chunk sizes. -/

theorem chunkSize_ge (index : Nat) : 16 ≤ chunkSize index := by
  unfold chunkSize
  have positive := Nat.one_le_two_pow (n := index)
  omega

theorem chunkSize_dvd {index : Nat} (small : index ≤ 8) : chunkSize index ∣ pageSize := by
  have split : pageSize = 16 * 2 ^ 8 := by decide
  unfold chunkSize
  rw [split]
  exact Nat.mul_dvd_mul_left 16 (Nat.pow_dvd_pow 2 small)

theorem Use.length_ge (use : Use) : 16 ≤ use.length := by
  cases use with
  | raw index => exact chunkSize_ge index
  | chunk index => exact chunkSize_ge index
  | block index size => exact chunkSize_ge index
  | freePage => decide
  | heldPage => decide
  | lostPage => decide

/-! ### A piece gets another use -/

section Retype

variable {owner : Nat → Option Use} {addr other : Nat} {use new kind : Use}

theorem owner_kept (known : owner addr = some use) (old : use ≠ kind) (fresh : new ≠ kind) :
    Function.update owner addr (some new) other = some kind ↔ owner other = some kind := by
  by_cases same : other = addr
  · rw [same, Function.update_self, known]
    simp [old, fresh]
  · rw [Function.update_of_ne same]

theorem owner_lost (fresh : new ≠ use) :
    Function.update owner addr (some new) other = some use ↔
      owner other = some use ∧ other ≠ addr := by
  by_cases same : other = addr
  · rw [same, Function.update_self]
    simp [fresh]
  · rw [Function.update_of_ne same]
    simp [same]

theorem owner_gained :
    Function.update owner addr (some new) other = some new ↔
      other = addr ∨ owner other = some new := by
  by_cases same : other = addr
  · rw [same, Function.update_self]
    simp
  · rw [Function.update_of_ne same]
    simp [same]

variable {pages : List Nat}

theorem Pieces.retype (pieces : Pieces pages owner) (known : owner addr = some use)
    (length : new.length = use.length) (pooled : new.Pooled) :
    Pieces pages (Function.update owner addr (some new)) := by
  have before : ∀ {other kind}, Function.update owner addr (some new) other = some kind →
      ∃ old, owner other = some old ∧ old.length = kind.length ∧ kind.Pooled := by
    intro other kind now
    by_cases same : other = addr
    · rw [same, Function.update_self] at now
      rw [← Option.some.inj now, same]
      exact ⟨use, known, length.symm, pooled⟩
    · rw [Function.update_of_ne same] at now
      exact ⟨kind, now, rfl, pieces.pooled other kind now⟩
  constructor
  · intro other kind now
    obtain ⟨old, was, equal, -⟩ := before now
    rw [← equal]
    exact pieces.aligned other old was
  · intro other kind now
    obtain ⟨old, was, equal, -⟩ := before now
    rw [← equal]
    exact pieces.inside other old was
  · intro other kind now
    obtain ⟨-, -, -, still⟩ := before now
    exact still
  · intro one two kind kind' now now' different
    obtain ⟨old, was, equal, -⟩ := before now
    obtain ⟨old', was', equal', -⟩ := before now'
    rw [← equal, ← equal']
    exact pieces.apart one two old old' was was' different

/-- Writing into one piece leaves the words at the start of the others. -/
theorem Pieces.readWord_other (pieces : Pieces pages owner) {bytes after : Memory}
    (known : owner addr = some use) (same : SameOutside bytes after addr use.length)
    (its : owner other = some kind) (different : other ≠ addr) :
    readWord after other = readWord bytes other := by
  apply same.readWord
  have long := kind.length_ge
  rcases pieces.apart other addr kind use its known different with below | above
  · left
    omega
  · right
    exact above

theorem Pieces.pointer (pieces : Pieces pages owner) (ok : PagesOk pages)
    (known : owner addr = some use) : addr ≠ 0 ∧ addr < 2 ^ 64 := by
  obtain ⟨page, member, below, above⟩ := pieces.inside addr use known
  have positive := ok.positive page member
  have fits := ok.fits page member
  have long := use.length_ge
  omega

end Retype

def Heap.setMem (heap : Heap) (mem : Mem) : Heap := { heap with mem := mem }

/-! ### The moves -/

namespace Layout

variable {poolAddr : Nat} {pages : List Nat} {heap after : Heap} {owner : Nat → Option Use}
  {free : List Nat} {pools : Nat → List Nat} {addr index size : Nat} {use new : Use}

/-- A piece that is on no list and has no header gets another use without any list being
touched; what is written stays inside it. -/
theorem retype (layout : Layout poolAddr pages heap owner free pools)
    (known : owner addr = some use) (length : new.length = use.length) (pooled : new.Pooled)
    (bytes : SameOutside heap.mem.bytes after.mem.bytes addr use.length)
    {free' : List Nat} {pools' : Nat → List Nat}
    (freeList : Listed after.mem.bytes after.mem.freePage free'
      (fun other => Function.update owner addr (some new) other = some .freePage))
    (poolList : ∀ index, Listed after.mem.bytes (after.mem.pool index) (pools' index)
      (fun other => Function.update owner addr (some new) other = some (.chunk index)))
    (heldDistinct : after.held.Nodup)
    (heldMembers : ∀ other, other ∈ after.held ↔
      Function.update owner addr (some new) other = some .heldPage)
    (liveDistinct : after.live.Nodup)
    (liveMembers : ∀ block, block ∈ after.live ↔ 8 ≤ block.addr ∧
      Function.update owner addr (some new) (block.addr - 8) =
        some (.block (sizeClass block.size) block.size))
    (header : ∀ index size, new = .block index size →
      Header poolAddr after.mem.bytes addr index size) :
    Layout poolAddr pages after (Function.update owner addr (some new)) free' pools' := by
  refine ⟨layout.pieces.retype known length pooled, freeList, poolList, heldDistinct, heldMembers,
    liveDistinct, liveMembers, ?_⟩
  intro other index size now
  by_cases same : other = addr
  · rw [same, Function.update_self] at now
    rw [same]
    exact header index size (Option.some.inj now)
  · rw [Function.update_of_ne same] at now
    obtain ⟨word, positive, fits, own⟩ := layout.headers other index size now
    refine ⟨?_, positive, fits, own⟩
    rw [layout.pieces.readWord_other known bytes now same]
    exact word

section Kept

variable (layout : Layout poolAddr pages heap owner free pools) (known : owner addr = some use)

include layout known

theorem freeList_kept {bytes : Memory} (old : use ≠ .freePage) (fresh : new ≠ .freePage)
    (same : SameOutside heap.mem.bytes bytes addr use.length) :
    Listed bytes heap.mem.freePage free
      (fun other => Function.update owner addr (some new) other = some .freePage) := by
  apply layout.freeList.frame (fun _ => owner_kept known old fresh)
  intro other mine
  apply layout.pieces.readWord_other known same mine
  intro equal
  rw [equal, known] at mine
  exact old (Option.some.inj mine)

theorem poolList_kept {bytes : Memory} (index : Nat) (old : use ≠ .chunk index)
    (fresh : new ≠ .chunk index) (same : SameOutside heap.mem.bytes bytes addr use.length) :
    Listed bytes (heap.mem.pool index) (pools index)
      (fun other => Function.update owner addr (some new) other = some (.chunk index)) := by
  apply (layout.poolList index).frame (fun _ => owner_kept known old fresh)
  intro other mine
  apply layout.pieces.readWord_other known same mine
  intro equal
  rw [equal, known] at mine
  exact old (Option.some.inj mine)

theorem held_kept (old : use ≠ .heldPage) (fresh : new ≠ .heldPage) (other : Nat) :
    other ∈ heap.held ↔ Function.update owner addr (some new) other = some .heldPage := by
  rw [layout.heldMembers, owner_kept known old fresh]

theorem live_kept (old : ∀ index size, use ≠ .block index size)
    (fresh : ∀ index size, new ≠ .block index size) (block : Block) :
    block ∈ heap.live ↔ 8 ≤ block.addr ∧
      Function.update owner addr (some new) (block.addr - 8) =
        some (.block (sizeClass block.size) block.size) := by
  rw [layout.liveMembers, owner_kept known (old _ _) (fresh _ _)]

end Kept

theorem takePage (layout : Layout poolAddr pages heap owner free pools)
    (head : heap.mem.freePage = some addr) (count : Int) :
    owner addr = some .freePage ∧ ∃ rest, free = addr :: rest ∧
      Layout poolAddr pages (heap.setMem ((heap.mem.setCount count).popPage addr))
        (Function.update owner addr (some .lostPage)) rest pools := by
  have listed := layout.freeList
  rw [head] at listed
  have fewer : ∀ other, Function.update owner addr (some .lostPage) other = some .freePage ↔
      owner other = some .freePage ∧ other ≠ addr := fun _ => owner_lost (by simp)
  obtain ⟨known, rest, whole, shorter⟩ := listed.pop fewer
  have same := SameOutside.refl heap.mem.bytes addr (Use.length .freePage)
  refine ⟨known, rest, whole, ?_⟩
  apply layout.retype known
  · rfl
  · trivial
  · exact same
  · simp only [Heap.setMem, Mem.popPage, Mem.setCount]
    exact shorter
  · intro index
    exact layout.poolList_kept known index (by simp) (by simp) same
  · exact layout.heldDistinct
  · exact layout.held_kept known (by simp) (by simp)
  · exact layout.liveDistinct
  · exact layout.live_kept known (by simp) (by simp)
  · intro index size block
    cases block

theorem putPage (layout : Layout poolAddr pages heap owner free pools) (ok : PagesOk pages)
    (known : owner addr = some .lostPage) :
    Layout poolAddr pages (heap.setMem (heap.mem.kfreePage addr))
      (Function.update owner addr (some .freePage)) (addr :: free) pools := by
  have same : SameOutside heap.mem.bytes (heap.mem.kfreePage addr).bytes addr
      (Use.length .lostPage) :=
    (writeWord_outside _ _ _).widen (Nat.le_refl _) (by simp [Use.length, pageSize])
  apply layout.retype known
  · rfl
  · trivial
  · exact same
  · apply layout.freeList.push
    · rw [known]
      simp
    · exact fun _ => owner_gained
    · exact fun other mine => layout.pieces.pointer ok mine
    · intro other mine
      apply layout.pieces.readWord_other known same mine
      intro equal
      rw [equal, known] at mine
      cases mine
  · intro index
    exact layout.poolList_kept known index (by simp) (by simp) same
  · exact layout.heldDistinct
  · exact layout.held_kept known (by simp) (by simp)
  · exact layout.liveDistinct
  · exact layout.live_kept known (by simp) (by simp)
  · intro index size block
    cases block

theorem hold (layout : Layout poolAddr pages heap owner free pools)
    (known : owner addr = some .lostPage) :
    Layout poolAddr pages { heap with held := addr :: heap.held }
      (Function.update owner addr (some .heldPage)) free pools := by
  have same := SameOutside.refl heap.mem.bytes addr (Use.length .lostPage)
  apply layout.retype known
  · rfl
  · trivial
  · exact same
  · exact layout.freeList_kept known (by simp) (by simp) same
  · intro index
    exact layout.poolList_kept known index (by simp) (by simp) same
  · rw [List.nodup_cons, layout.heldMembers, known]
    exact ⟨by simp, layout.heldDistinct⟩
  · intro other
    rw [List.mem_cons, layout.heldMembers, owner_gained]
  · exact layout.liveDistinct
  · exact layout.live_kept known (by simp) (by simp)
  · intro index size block
    cases block

theorem unhold (layout : Layout poolAddr pages heap owner free pools)
    (known : owner addr = some .heldPage) :
    Layout poolAddr pages { heap with held := heap.held.erase addr }
      (Function.update owner addr (some .lostPage)) free pools := by
  have same := SameOutside.refl heap.mem.bytes addr (Use.length .heldPage)
  apply layout.retype known
  · rfl
  · trivial
  · exact same
  · exact layout.freeList_kept known (by simp) (by simp) same
  · intro index
    exact layout.poolList_kept known index (by simp) (by simp) same
  · exact layout.heldDistinct.erase addr
  · intro other
    rw [layout.heldDistinct.mem_erase_iff, layout.heldMembers, owner_lost (by simp), and_comm]
  · exact layout.liveDistinct
  · exact layout.live_kept known (by simp) (by simp)
  · intro index size block
    cases block

theorem takeChunk (layout : Layout poolAddr pages heap owner free pools)
    (head : heap.mem.pool index = some addr) :
    owner addr = some (.chunk index) ∧ ∃ rest, pools index = addr :: rest ∧
      Layout poolAddr pages (heap.setMem (heap.mem.popChunk index addr))
        (Function.update owner addr (some (.raw index))) free
        (Function.update pools index rest) := by
  have listed := layout.poolList index
  rw [head] at listed
  have fewer : ∀ other, Function.update owner addr (some (.raw index)) other =
      some (.chunk index) ↔ owner other = some (.chunk index) ∧ other ≠ addr :=
    fun _ => owner_lost (by simp)
  obtain ⟨known, rest, whole, shorter⟩ := listed.pop fewer
  have same := SameOutside.refl heap.mem.bytes addr (Use.length (.chunk index))
  refine ⟨known, rest, whole, ?_⟩
  apply layout.retype known
  · rfl
  · have small : index ≤ 8 := layout.pieces.pooled addr _ known
    exact small
  · exact same
  · exact layout.freeList_kept known (by simp) (by simp) same
  · intro other
    simp only [Heap.setMem, Mem.popChunk]
    by_cases equal : other = index
    · rw [equal, Function.update_self, Function.update_self]
      exact shorter
    · rw [Function.update_of_ne equal, Function.update_of_ne equal]
      exact layout.poolList_kept known other (by simp [Ne.symm equal]) (by simp) same
  · exact layout.heldDistinct
  · exact layout.held_kept known (by simp) (by simp)
  · exact layout.liveDistinct
  · exact layout.live_kept known (by simp) (by simp)
  · intro index size block
    cases block

theorem putChunk (layout : Layout poolAddr pages heap owner free pools) (ok : PagesOk pages)
    (known : owner addr = some (.raw index)) :
    Layout poolAddr pages (heap.setMem (heap.mem.addToPool index addr))
      (Function.update owner addr (some (.chunk index))) free
      (Function.update pools index (addr :: pools index)) := by
  have long := chunkSize_ge index
  have same : SameOutside heap.mem.bytes (heap.mem.addToPool index addr).bytes addr
      (Use.length (.raw index)) := by
    apply (writeWord_outside _ _ _).widen (Nat.le_refl _)
    simp only [Use.length]
    omega
  apply layout.retype known
  · rfl
  · have small : index ≤ 8 := layout.pieces.pooled addr _ known
    exact small
  · exact same
  · exact layout.freeList_kept known (by simp) (by simp) same
  · intro other
    change Listed _ (Function.update heap.mem.pool index _ other) _ _
    by_cases equal : other = index
    · rw [equal, Function.update_self, Function.update_self]
      apply (layout.poolList index).push
      · rw [known]
        simp
      · exact fun _ => owner_gained
      · exact fun other mine => layout.pieces.pointer ok mine
      · intro other mine
        apply layout.pieces.readWord_other known same mine
        intro equal
        rw [equal, known] at mine
        cases mine
    · rw [Function.update_of_ne equal, Function.update_of_ne equal]
      exact layout.poolList_kept known other (by simp) (by simp [Ne.symm equal]) same
  · exact layout.heldDistinct
  · exact layout.held_kept known (by simp) (by simp)
  · exact layout.liveDistinct
  · exact layout.live_kept known (by simp) (by simp)
  · intro index size block
    cases block

/-- A chunk is given to a caller, with its header and cleared. -/
theorem hand (layout : Layout poolAddr pages heap owner free pools)
    (known : owner addr = some (.raw index)) (positive : 0 < size)
    (fits : size + 8 ≤ chunkSize index) (own : sizeClass size = index)
    (address : poolAddr + 8 * index < 2 ^ 64) :
    Layout poolAddr pages
      { heap with
        mem := heap.mem.hand poolAddr index size addr
        live := { addr := addr + 8, size := size } :: heap.live }
      (Function.update owner addr (some (.block index size))) free pools := by
  have same : SameOutside heap.mem.bytes (heap.mem.hand poolAddr index size addr).bytes addr
      (Use.length (.raw index)) := by
    have header := (writeWord_outside heap.mem.bytes addr (poolAddr + 8 * index)).widen
      (Nat.le_refl addr) (Nat.add_le_add_left (Nat.le_trans (Nat.le_add_left 8 size) fits) addr)
    apply header.trans
    apply (fill_outside _ _ _ _).widen (Nat.le_add_right addr 8)
    omega
  have mine : ({ addr := addr + 8, size := size } : Block) ∉ heap.live := by
    rw [layout.liveMembers]
    simp [known]
  apply layout.retype known
  · rfl
  · have small : index ≤ 8 := layout.pieces.pooled addr _ known
    exact small
  · exact same
  · exact layout.freeList_kept known (by simp) (by simp) same
  · intro other
    exact layout.poolList_kept known other (by simp) (by simp) same
  · exact layout.heldDistinct
  · exact layout.held_kept known (by simp) (by simp)
  · exact List.nodup_cons.mpr ⟨mine, layout.liveDistinct⟩
  · intro block
    rw [List.mem_cons, layout.liveMembers]
    by_cases here : block.addr - 8 = addr
    · rw [here, Function.update_self, known]
      cases block with
      | mk place length =>
          simp only [Block.mk.injEq, Option.some.injEq, Use.block.injEq, reduceCtorEq, and_false,
            or_false] at here ⊢
          constructor
          · rintro ⟨rfl, rfl⟩
            exact ⟨by omega, own.symm, rfl⟩
          · rintro ⟨above, -, rfl⟩
            exact ⟨by omega, rfl⟩
    · rw [Function.update_of_ne here]
      have different : block ≠ { addr := addr + 8, size := size } := by
        intro equal
        rw [equal] at here
        simp at here
      simp [different]
  · intro index' size' equal
    cases equal
    refine ⟨?_, positive, fits, own⟩
    change readWord (fill (writeWord heap.mem.bytes addr (poolAddr + 8 * index)) (addr + 8) 0 size)
      addr = _
    rw [(fill_outside _ _ _ _).readWord (Or.inl (Nat.le_refl _)), readWord_writeWord address]

theorem release (layout : Layout poolAddr pages heap owner free pools)
    (known : owner addr = some (.block index size)) :
    Layout poolAddr pages
      { heap with live := heap.live.erase { addr := addr + 8, size := size } }
      (Function.update owner addr (some (.raw index))) free pools := by
  have same := SameOutside.refl heap.mem.bytes addr (Use.length (.block index size))
  have own := (layout.headers addr index size known).own
  apply layout.retype known
  · rfl
  · have small : index ≤ 8 := layout.pieces.pooled addr _ known
    exact small
  · exact same
  · exact layout.freeList_kept known (by simp) (by simp) same
  · intro other
    exact layout.poolList_kept known other (by simp) (by simp) same
  · exact layout.heldDistinct
  · exact layout.held_kept known (by simp) (by simp)
  · exact layout.liveDistinct.erase _
  · intro block
    rw [layout.liveDistinct.mem_erase_iff, layout.liveMembers]
    by_cases here : block.addr - 8 = addr
    · rw [here, Function.update_self, known]
      cases block with
      | mk place length =>
          simp only [ne_eq, Block.mk.injEq, Option.some.injEq, Use.block.injEq, reduceCtorEq,
            and_false, iff_false] at here ⊢
          rintro ⟨other, above, -, rfl⟩
          exact other ⟨by omega, rfl⟩
    · rw [Function.update_of_ne here]
      have different : block ≠ { addr := addr + 8, size := size } := by
        intro equal
        rw [equal] at here
        simp at here
      simp [different]
  · intro index size block
    cases block

/-- A caller writes into what it has, but not over the header. -/
theorem scribble (layout : Layout poolAddr pages heap owner free pools)
    (known : owner addr = some use) {place : Nat} (byte : UInt8) (above : addr ≤ place)
    (below : place < addr + use.length)
    (plain : use = .heldPage ∨ (∃ index size, use = .block index size) ∧ addr + 8 ≤ place) :
    Layout poolAddr pages (heap.setByte place byte) owner free pools := by
  have same : SameOutside heap.mem.bytes (heap.setByte place byte).mem.bytes addr use.length := by
    intro other outside
    apply Function.update_of_ne
    omega
  have notFree : use ≠ .freePage := by
    rcases plain with held | ⟨⟨index, size, block⟩, -⟩
    · simp [held]
    · simp [block]
  have notChunk : ∀ index, use ≠ .chunk index := by
    intro index
    rcases plain with held | ⟨⟨index, size, block⟩, -⟩
    · simp [held]
    · simp [block]
  constructor
  · exact layout.pieces
  · apply layout.freeList.frame (fun _ => Iff.rfl)
    intro other mine
    apply layout.pieces.readWord_other known same mine
    intro equal
    rw [equal, known] at mine
    exact notFree (Option.some.inj mine)
  · intro index
    apply (layout.poolList index).frame (fun _ => Iff.rfl)
    intro other mine
    apply layout.pieces.readWord_other known same mine
    intro equal
    rw [equal, known] at mine
    exact notChunk index (Option.some.inj mine)
  · exact layout.heldDistinct
  · exact layout.heldMembers
  · exact layout.liveDistinct
  · exact layout.liveMembers
  · intro other index size now
    obtain ⟨word, positive, fits, own⟩ := layout.headers other index size now
    refine ⟨?_, positive, fits, own⟩
    by_cases here : other = addr
    · rw [here] at now word ⊢
      rw [← word]
      apply readWord_congr
      intro offset within
      apply Function.update_of_ne
      rcases plain with held | ⟨-, behind⟩
      · rw [known, held] at now
        cases now
      · omega
    · rw [layout.pieces.readWord_other known same now here]
      exact word

theorem setCount (layout : Layout poolAddr pages heap owner free pools) (count : Int) :
    Layout poolAddr pages (heap.setMem (heap.mem.setCount count)) owner free pools :=
  ⟨layout.pieces, layout.freeList, layout.poolList, layout.heldDistinct, layout.heldMembers,
    layout.liveDistinct, layout.liveMembers, layout.headers⟩

end Layout

end LabKernel.Kernel
