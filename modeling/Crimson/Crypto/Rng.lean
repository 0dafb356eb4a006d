import Mathlib.Data.UInt

/-!
# Random bytes (`crypto_stub.c`)

The generator hands out the bytes of ChaCha20 blocks. The seed and, each time the block counter
comes round, a new part of the nonce are read off the counter of the CPU; `clock` gives what it
says, reading by reading.

How the requests cut the stream does not matter (`rng_stream`), and which blocks are the same
again is decided by the nonces alone (`rng_inputs_repeat_iff`).
-/

set_option autoImplicit false

namespace Crimson.Crypto

/-- `ROTL32`. -/
def rotl32 (v n : UInt32) : UInt32 := (v <<< n) ||| (v >>> (32 - n))

/-- The words of a state, four rows of four. -/
abbrev Words := Vector UInt32 (4 * 4)

/-- `QR`, on four words of the state. -/
def quarterRound (x : Words) (a b c d : Nat) : Words :=
  let x := x.set! a (x[a]! + x[b]!)
  let x := x.set! d (rotl32 (x[d]! ^^^ x[a]!) 16)
  let x := x.set! c (x[c]! + x[d]!)
  let x := x.set! b (rotl32 (x[b]! ^^^ x[c]!) 12)
  let x := x.set! a (x[a]! + x[b]!)
  let x := x.set! d (rotl32 (x[d]! ^^^ x[a]!) 8)
  let x := x.set! c (x[c]! + x[d]!)
  x.set! b (rotl32 (x[b]! ^^^ x[c]!) 7)

/-- A round of the loop: four columns and four diagonals. -/
def doubleRound (x : Words) : Words :=
  let x := quarterRound x 0 4 8 12
  let x := quarterRound x 1 5 9 13
  let x := quarterRound x 2 6 10 14
  let x := quarterRound x 3 7 11 15
  let x := quarterRound x 0 5 10 15
  let x := quarterRound x 1 6 11 12
  let x := quarterRound x 2 7 8 13
  quarterRound x 3 4 9 14

/-- `chacha20_block`. -/
def chacha20Block (input : Words) : Vector UInt8 64 :=
  let x := doubleRound^[10] input
  Vector.ofFn fun i : Fin 64 =>
    let v := x[i.val / 4] + input[i.val / 4]
    ((v >>> (8 * UInt32.ofNat (i.val % 4))) &&& 0xff).toUInt8

example : (chacha20Block #v[0x61707865, 0x3320646e, 0x79622d32, 0x6b206574, 0, 0, 0, 0, 0, 0, 0, 0, 0, 0, 0, 0]).toList.take 4 =
    [0x76, 0xb8, 0xe0, 0xad] := by
  decide +kernel

/-- `g_rng`, and how often the counter of the CPU has been read. -/
structure Rng where
  state : Words
  buf : Vector UInt8 64
  bufPos : Nat
  initialized : Bool
  readings : Nat

/-- Before the first call. -/
def rngZero : Rng where
  state := Vector.replicate 16 0
  buf := Vector.replicate 64 0
  bufPos := 0
  initialized := false
  readings := 0

/-- The state that `rng_init` makes of the two seeds, with the counter still 0. -/
def seedState (seed0 seed1 : UInt64) : Words :=
  #v[0x61707865, 0x3320646e, 0x79622d32, 0x6b206574,
    seed0.toUInt32, (seed0 >>> 32).toUInt32, seed1.toUInt32, (seed1 >>> 32).toUInt32,
    (seed0 ^^^ 0xDEADBEEF).toUInt32, (seed1 ^^^ 0xCAFEBABE).toUInt32,
    (seed0 >>> 16).toUInt32 ^^^ 0x12345678, (seed1 >>> 16).toUInt32 ^^^ 0x87654321,
    0, (seed0 ^^^ seed1).toUInt32, (seed0 >>> 8).toUInt32, (seed1 >>> 8).toUInt32]

def rngInit (clock : Nat → UInt64) (g : Rng) : Rng :=
  let seed0 := clock g.readings
  let seed1 := clock (g.readings + 1) ^^^ (seed0 <<< 17)
  let state := seedState seed0 seed1
  { state := state.set 12 (state[12] + 1)
    buf := chacha20Block state
    bufPos := 64
    initialized := true
    readings := g.readings + 2 }

/-- `state[12]++` behind a block, and a new nonce where that comes round: the state, and the readings. -/
def nextInput (clock : Nat → UInt64) (p : Words × Nat) : Words × Nat :=
  let state := p.1.set 12 (p.1[12] + 1)
  if state[12] = 0 then
    let state := state.set 13 (state[13] ^^^ (clock p.2).toUInt32)
    (state.set 12 (state[12] + 1), p.2 + 1)
  else (state, p.2)

/-- The part of the loop of `rng_get_bytes` that makes a new block. -/
def rngRefill (clock : Nat → UInt64) (g : Rng) : Rng :=
  let next := nextInput clock (g.state, g.readings)
  { g with state := next.1, buf := chacha20Block g.state, bufPos := 0, readings := next.2 }

/-- A round of the loop. -/
def rngByte (clock : Nat → UInt64) (g : Rng) : UInt8 × Rng :=
  if h : g.bufPos < 64 then (g.buf[g.bufPos], { g with bufPos := g.bufPos + 1 })
  else
    let g := rngRefill clock g
    (g.buf[0], { g with bufPos := 1 })

def rngLoop (clock : Nat → UInt64) : Nat → Rng → List UInt8 × Rng
  | 0, g => ([], g)
  | n + 1, g =>
    let (b, g) := rngByte clock g
    let (bs, g) := rngLoop clock n g
    (b :: bs, g)

def rngGetBytes (clock : Nat → UInt64) (len : Nat) (g : Rng) : List UInt8 × Rng :=
  rngLoop clock len (if g.initialized then g else rngInit clock g)

/-- The calls. -/
inductive RngCall where
  | getBytes (len : Nat)
  | getU32
  | getU64
deriving DecidableEq, Repr

def RngCall.len : RngCall → Nat
  | .getBytes len => len
  | .getU32 => 4
  | .getU64 => 8

/-- What the calls hand out one after the other; `rng_get_u32` and `rng_get_u64` have it as a number. -/
def rngRun (clock : Nat → UInt64) : List RngCall → Rng → List (List UInt8)
  | [], _ => []
  | call :: calls, g =>
    let (bs, g) := rngGetBytes clock call.len g
    bs :: rngRun clock calls g

/-! ## The stream -/

/-- The input of block `k`. -/
def blockInput (clock : Nat → UInt64) (k : Nat) : Words × Nat :=
  (nextInput clock)^[k] ((rngInit clock rngZero).state, 2)

/-- Byte `n` of the stream. -/
def keystream (clock : Nat → UInt64) (n : Nat) : UInt8 :=
  (chacha20Block (blockInput clock (n / 64)).1)[n % 64]

variable {clock : Nat → UInt64} {g : Rng} {n : Nat}

/-- The generator when `n` bytes have been drawn. -/
structure Drawn (clock : Nat → UInt64) (n : Nat) (g : Rng) : Prop where
  initialized : g.initialized = true
  input : (g.state, g.readings) = blockInput clock ((n + 63) / 64)
  pos : g.bufPos + 64 * ((n + 63) / 64) = n + 64
  block : 0 < n → g.buf = chacha20Block (blockInput clock ((n + 63) / 64 - 1)).1

theorem drawn_init : Drawn clock 0 (rngInit clock rngZero) where
  initialized := rfl
  input := rfl
  pos := rfl
  block := fun h => absurd h (Nat.lt_irrefl 0)

/-- **A byte that is handed out is the next one of the stream.** -/
theorem Drawn.byte (h : Drawn clock n g) :
    (rngByte clock g).1 = keystream clock n ∧ Drawn clock (n + 1) (rngByte clock g).2 := by
  have hpos := h.pos
  unfold rngByte
  split
  · rename_i hlt
    have hblocks : (n + 1 + 63) / 64 = (n + 63) / 64 := by omega
    have hlast : (n + 63) / 64 - 1 = n / 64 := by omega
    have hbuf := h.block (by omega)
    have hat : g.bufPos = n % 64 := by omega
    refine ⟨?_, h.initialized, by rw [hblocks]; exact h.input, ?_, fun _ => by rw [hblocks]; exact hbuf⟩
    · simp only [keystream, hbuf, hlast, hat]
    · dsimp only
      omega
  · rename_i hfull
    -- the block before is used up, so `n` is the first byte of the next one
    have hblocks : (n + 63) / 64 = n / 64 := by omega
    have hnext : (n + 1 + 63) / 64 = n / 64 + 1 := by omega
    have hzero : n % 64 = 0 := by omega
    have hinput := h.input
    rw [hblocks] at hinput
    have hstate : g.state = (blockInput clock (n / 64)).1 := congrArg Prod.fst hinput
    refine ⟨?_, ?_, ?_, ?_, ?_⟩
    · simp only [rngRefill, keystream, hstate, hzero]
    · exact h.initialized
    · show nextInput clock (g.state, g.readings) = _
      rw [hinput, hnext]
      exact (Function.iterate_succ_apply' (nextInput clock) (n / 64) _).symm
    · dsimp only
      omega
    · intro _
      show chacha20Block g.state = _
      rw [hstate, hnext, Nat.add_sub_cancel]

theorem Drawn.loop (h : Drawn clock n g) (len : Nat) :
    (rngLoop clock len g).1 = (List.range' n len).map (keystream clock) ∧ Drawn clock (n + len) (rngLoop clock len g).2 := by
  induction len generalizing n g with
  | zero => exact ⟨rfl, h⟩
  | succ len ih =>
    obtain ⟨hb, hnext⟩ := h.byte
    obtain ⟨hbs, hlast⟩ := ih hnext
    constructor
    · simp only [rngLoop, hb, hbs, List.range'_succ, List.map_cons]
    · rw [Nat.add_assoc, Nat.add_comm 1] at hlast
      exact hlast

theorem Drawn.calls (h : Drawn clock n g) (calls : List RngCall) :
    (rngRun clock calls g).flatten = (List.range' n (calls.map RngCall.len).sum).map (keystream clock) ∧
      (rngRun clock calls g).map List.length = calls.map RngCall.len := by
  induction calls generalizing n g with
  | nil => exact ⟨rfl, rfl⟩
  | cons call calls ih =>
    have hget : rngGetBytes clock call.len g = rngLoop clock call.len g := by
      rw [rngGetBytes, if_pos h.initialized]
    obtain ⟨hbs, hnext⟩ := h.loop call.len
    obtain ⟨hrest, hlens⟩ := ih hnext
    constructor
    · simp only [rngRun, hget, List.flatten_cons, hrest, hbs, List.map_cons, List.sum_cons, ← List.map_append,
        List.range'_append_1]
    · simp only [rngRun, hget, List.map_cons, hlens, hbs, List.length_map, List.length_range']

/-- **The stream is the same however the calls cut it**: they hand out its bytes one after the other, each
    once, and each call as many as it asked for. -/
theorem rng_stream (clock : Nat → UInt64) (calls : List RngCall) :
    (rngRun clock calls rngZero).flatten = (List.range (calls.map RngCall.len).sum).map (keystream clock) ∧
      (rngRun clock calls rngZero).map List.length = calls.map RngCall.len := by
  have hfirst (len : Nat) : rngGetBytes clock len rngZero = rngGetBytes clock len (rngInit clock rngZero) := rfl
  rw [List.range_eq_range']
  cases calls with
  | nil => exact ⟨rfl, rfl⟩
  | cons call calls =>
    have hrun : rngRun clock (call :: calls) rngZero = rngRun clock (call :: calls) (rngInit clock rngZero) := by
      rw [rngRun, rngRun, hfirst]
    rw [hrun]
    exact drawn_init.calls (call :: calls)

/-! ## Blocks that are the same again -/

/-- Blocks before the counter comes round: it leaves 0 out. -/
def rngPeriod : Nat := 4294967295

/-- What the first `e` rounds of the counter have added to the nonce. -/
def nonceMix (clock : Nat → UInt64) (e : Nat) : UInt32 :=
  (List.range e).foldl (fun v i => v ^^^ (clock (2 + i)).toUInt32) 0

theorem nonceMix_succ (clock : Nat → UInt64) (e : Nat) :
    nonceMix clock (e + 1) = nonceMix clock e ^^^ (clock (2 + e)).toUInt32 := by
  rw [nonceMix, List.range_succ, List.foldl_append]
  rfl

/-- The seeded state with another counter and nonce. -/
def inputWith (clock : Nat → UInt64) (counter mix : UInt32) : Words :=
  let seed := (rngInit clock rngZero).state
  (seed.set 12 counter).set 13 (seed[13] ^^^ mix)

theorem inputWith_counter (clock : Nat → UInt64) (counter mix : UInt32) : (inputWith clock counter mix)[12] = counter := by
  simp [inputWith]

theorem inputWith_nonce (clock : Nat → UInt64) (counter mix : UInt32) :
    (inputWith clock counter mix)[13] = (rngInit clock rngZero).state[13] ^^^ mix := by
  simp [inputWith]

theorem inputWith_set (clock : Nat → UInt64) (counter counter' mix : UInt32) :
    (inputWith clock counter mix).set 12 counter' = inputWith clock counter' mix := by
  refine Vector.ext fun i hi => ?_
  simp only [inputWith, Vector.getElem_set]
  split_ifs <;> first | rfl | omega

theorem inputWith_mix (clock : Nat → UInt64) (counter mix v : UInt32) :
    (inputWith clock counter mix).set 13 ((inputWith clock counter mix)[13] ^^^ v) = inputWith clock counter (mix ^^^ v) := by
  rw [inputWith_nonce, UInt32.xor_assoc]
  exact Vector.set_set ..

/-- **The inputs of the blocks**: the counter goes from 1 to its greatest value, and then the nonce changes. -/
theorem blockInput_eq (clock : Nat → UInt64) (k : Nat) :
    blockInput clock k = (inputWith clock (UInt32.ofNat (k % rngPeriod + 1)) (nonceMix clock (k / rngPeriod)), 2 + k / rngPeriod) := by
  unfold rngPeriod
  induction k with
  | zero =>
    refine Prod.ext (Vector.ext fun i hi => ?_) rfl
    show (rngInit clock rngZero).state[i] = (inputWith clock (UInt32.ofNat (0 % 4294967295 + 1)) (nonceMix clock 0))[i]
    have hone : (rngInit clock rngZero).state[12] = UInt32.ofNat (0 % 4294967295 + 1) := rfl
    simp only [inputWith, Vector.getElem_set]
    split_ifs with h13 h12
    · subst h13
      exact (UInt32.xor_zero ..).symm
    · subst h12
      exact hone
    · rfl
  | succ k ih =>
    have hnext : blockInput clock (k + 1) = nextInput clock (blockInput clock k) := Function.iterate_succ_apply' ..
    rw [hnext, ih]
    unfold nextInput
    simp only [inputWith_set, inputWith_counter, inputWith_mix]
    by_cases hlast : k % 4294967295 = 4294967294
    · -- the counter has come to its greatest value, and goes over 0 to 1
      have hdiv : (k + 1) / 4294967295 = k / 4294967295 + 1 := by omega
      have hmod : (k + 1) % 4294967295 = 0 := by omega
      have hzero : UInt32.ofNat (4294967294 + 1) + 1 = 0 := rfl
      simp only [hlast, hzero, hdiv, hmod, if_true, nonceMix_succ, Nat.zero_add, Nat.add_assoc]
      rfl
    · have hdiv : (k + 1) / 4294967295 = k / 4294967295 := by omega
      have hmod : (k + 1) % 4294967295 = k % 4294967295 + 1 := by omega
      have hstep : UInt32.ofNat (k % 4294967295 + 1) + 1 = UInt32.ofNat (k % 4294967295 + 1 + 1) :=
        (UInt32.ofNat_add _ 1).symm
      have hne : UInt32.ofNat (k % 4294967295 + 1 + 1) ≠ 0 := by
        intro h
        have hnat := congrArg UInt32.toNat h
        rw [UInt32.toNat_ofNat_of_lt' (by unfold UInt32.size; omega)] at hnat
        simp at hnat
      simp only [hstep, if_neg hne, hdiv, hmod]

/-- **Which blocks are the same again**: those at the same place of the counter's round, if the readings in between
    add up to nothing. -/
theorem rng_inputs_repeat_iff (clock : Nat → UInt64) (i j : Nat) :
    (blockInput clock i).1 = (blockInput clock j).1 ↔
      i % rngPeriod = j % rngPeriod ∧ nonceMix clock (i / rngPeriod) = nonceMix clock (j / rngPeriod) := by
  rw [blockInput_eq, blockInput_eq]
  dsimp only
  constructor
  · intro h
    have hcounter := congrArg (fun x : Words => x[12]) h
    have hnonce := congrArg (fun x : Words => x[13]) h
    simp only [inputWith_counter] at hcounter
    simp only [inputWith_nonce] at hnonce
    refine ⟨?_, (UInt32.xor_right_inj _).mp hnonce⟩
    have hi := Nat.mod_lt i (show 0 < rngPeriod by decide)
    have hj := Nat.mod_lt j (show 0 < rngPeriod by decide)
    unfold rngPeriod at *
    have hnat := congrArg UInt32.toNat hcounter
    rw [UInt32.toNat_ofNat_of_lt' (by unfold UInt32.size; omega), UInt32.toNat_ofNat_of_lt' (by unfold UInt32.size; omega)] at hnat
    omega
  · rintro ⟨hcounter, hnonce⟩
    rw [hcounter, hnonce]

end Crimson.Crypto
