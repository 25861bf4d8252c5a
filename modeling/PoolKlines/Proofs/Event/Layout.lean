import PoolKlines.Event.Basic
import PoolKlines.Proofs.Bytes.Base58
import PoolKlines.Proofs.Bytes.Reader

/-!
# Layouts

A layout is a sequence of fields of fixed width. It reads every body that is long enough, each field
at a fixed offset, and it reads back what was written.

* `Reads` says of a read how many bytes it takes and what it makes of them, and that it fails when
  there are fewer; `Reads.bind` puts two reads together;
* `SwapEvent.ofBody` and so on are the events whose fields stand at fixed offsets of a body, and
  `reads_swap` and so on say that the layouts read them;
* `SwapEvent.readsBack` and so on: the layouts read what was written (`ReadsBack`).
-/

namespace PoolKlines

variable {α β : Type}

/-! ### Fields at offsets -/

/-- So many bytes at an offset. -/
def bytesAt (body : List UInt8) (offset width : Nat) : List UInt8 := (body.drop offset).take width

/-- The little-endian number of so many bytes at an offset. -/
def numberAt (body : List UInt8) (offset width : Nat) : Nat :=
  littleEndian (bytesAt body offset width)

/-- The text of the key at an offset. -/
def keyAt (body : List UInt8) (offset : Nat) : String := Base58.encode (bytesAt body offset 32)

/-- The byte at an offset. -/
def byteAt (body : List UInt8) (offset : Nat) : UInt8 := (bytesAt body offset 1).headD 0

/-- The amount at an offset. -/
def amountAt (body : List UInt8) (offset : Nat) : UInt64 := UInt64.ofNat (numberAt body offset 8)

/-- The amounts of both sides, one behind the other. -/
def amountsAt (body : List UInt8) (offset : Nat) : Sides UInt64 :=
  ⟨amountAt body offset, amountAt body (offset + 8)⟩

/-- The number of sixteen bytes at an offset. -/
def wideAt (body : List UInt8) (offset : Nat) : BitVec 128 :=
  BitVec.ofNat 128 (numberAt body offset 16)

/-- The signed number of four bytes at an offset. -/
def tickAt (body : List UInt8) (offset : Nat) : Int32 :=
  (UInt32.ofNat (numberAt body offset 4)).toInt32

/-- The swap whose fields stand in a body. -/
def SwapEvent.ofBody (body : List UInt8) : SwapEvent where
  pool := keyAt body 0
  user := keyAt body 32
  direction := byteAt body 64
  amountIn := amountAt body 65
  amountOut := amountAt body 73
  feeAmount := amountAt body 81
  protocolFee := amountAt body 89
  referralFee := amountAt body 97
  sqrtPrice := wideAt body 105
  liquidity := wideAt body 121
  vaultBalances := amountsAt body 137
  tick := tickAt body 153

/-- The change of liquidity whose fields stand in a body. -/
def LiquidityEvent.ofBody (body : List UInt8) : LiquidityEvent where
  pool := keyAt body 0
  owner := keyAt body 32
  position := keyAt body 64
  liquidity := wideAt body 96
  amounts := amountsAt body 112
  vaultBalances := amountsAt body 128

/-- The collection of fees whose fields stand in a body. -/
def CollectEvent.ofBody (body : List UInt8) : CollectEvent where
  pool := keyAt body 0
  owner := keyAt body 32
  position := keyAt body 64
  fees := amountsAt body 96
  vaultBalances := amountsAt body 112

/-! ### Reading at offsets -/

/-- A read takes so many bytes at any offset of a body and makes a value of them, or fails where
there are fewer. -/
structure Reads (read : Read α) (width : Nat) (value : List UInt8 → Nat → α) : Prop where
  ok : ∀ (body : List UInt8) (offset : Nat), offset + width ≤ body.length →
    read ⟨offset, body.drop offset⟩ =
      .ok (value body offset) ⟨offset + width, body.drop (offset + width)⟩
  fails : ∀ (body : List UInt8) (offset : Nat), offset ≤ body.length →
    body.length < offset + width →
    ∃ e r, read ⟨offset, body.drop offset⟩ = .error e r

theorem reads_take (width : Nat) : Reads (Reader.take width) width (bytesAt · · width) where
  ok body offset h := by
    rw [Reader.take_of_le (by simp only [Reader.remaining, List.length_drop]; omega),
      List.drop_drop]
    rfl
  fails body offset hle hlt := by
    refine ⟨_, _, Reader.take_of_lt ?_⟩
    simp only [Reader.remaining, List.length_drop]
    omega

theorem reads_pure (a : α) : Reads (pure a) 0 fun _ _ => a where
  ok body offset h := rfl
  fails body offset hle hlt := by omega

theorem Reads.bind {x : Read α} {f : α → Read β} {m n : Nat} {v : List UInt8 → Nat → α}
    {w : α → List UInt8 → Nat → β} (hx : Reads x m v) (hf : ∀ a, Reads (f a) n (w a)) :
    Reads (x >>= f) (m + n) fun body offset => w (v body offset) body (offset + m) where
  ok body offset h := by
    rw [← Nat.add_assoc] at h ⊢
    exact (bind_of_ok (hx.ok body offset (by omega)) f).trans ((hf _).ok body (offset + m) h)
  fails body offset hle hlt := by
    by_cases hm : offset + m ≤ body.length
    · obtain ⟨e, r, he⟩ := (hf (v body offset)).fails body (offset + m) hm (by omega)
      exact ⟨e, r, (bind_of_ok (hx.ok body offset hm) f).trans he⟩
    · obtain ⟨e, r, he⟩ := hx.fails body offset hle (by omega)
      exact ⟨e, r, bind_of_error he f⟩

theorem reads_key : Reads Reader.key 32 keyAt := (reads_take 32).bind fun _ => reads_pure _

theorem reads_uint8 : Reads Reader.uint8 1 byteAt := (reads_take 1).bind fun _ => reads_pure _

theorem reads_uint64 : Reads Reader.uint64 8 amountAt := (reads_take 8).bind fun _ => reads_pure _

theorem reads_uint128 : Reads Reader.uint128 16 wideAt := (reads_take 16).bind fun _ => reads_pure _

theorem reads_int32 : Reads Reader.int32 4 tickAt := (reads_take 4).bind fun _ => reads_pure _

theorem reads_sides : Reads Reader.sides 16 amountsAt :=
  reads_uint64.bind fun _ => reads_uint64.bind fun _ => reads_pure _

/-- A layout that takes so many bytes reads just the bodies that are so long. -/
theorem Reads.run?_eq_ok {read : Read α} {width : Nat} {value : List UInt8 → Nat → α}
    (h : Reads read width value) {body : List UInt8} {a : α} :
    read.run? body = .ok a ↔ width ≤ body.length ∧ value body 0 = a := by
  unfold Read.run?
  by_cases hle : width ≤ body.length
  · have hok := h.ok body 0 (by omega)
    rw [List.drop_zero] at hok
    rw [show Reader.ofBytes body = ⟨0, body⟩ from rfl, hok]
    simp [hle]
  · obtain ⟨e, r, herror⟩ := h.fails body 0 (Nat.zero_le _) (by omega)
    rw [List.drop_zero] at herror
    rw [show Reader.ofBytes body = ⟨0, body⟩ from rfl, herror]
    simp [hle]

theorem Read.run?_map (f : α → β) (read : Read α) (body : List UInt8) :
    (f <$> read).run? body = (read.run? body).map f := by
  unfold Read.run?
  simp only [Functor.map, EStateM.map]
  cases read (Reader.ofBytes body) <;> rfl

theorem Read.run?_map_eq_ok {f : α → β} {read : Read α} {body : List UInt8} {width : Nat} {a : α}
    (h : ∀ {x : α}, read.run? body = .ok x ↔ width ≤ body.length ∧ a = x) {b : β} :
    (f <$> read).run? body = .ok b ↔ width ≤ body.length ∧ f a = b := by
  simp only [run?_map, map_eq_ok, h, and_assoc, exists_and_left, exists_eq_left']

theorem SwapEvent.run?_layout {body : List UInt8} {e : SwapEvent} :
    SwapEvent.layout.run? body = .ok e ↔ 157 ≤ body.length ∧ SwapEvent.ofBody body = e :=
  (reads_key.bind fun pool => reads_key.bind fun user => reads_uint8.bind fun direction =>
    reads_uint64.bind fun amountIn => reads_uint64.bind fun amountOut =>
    reads_uint64.bind fun feeAmount => reads_uint64.bind fun protocolFee =>
    reads_uint64.bind fun referralFee => reads_uint128.bind fun sqrtPrice =>
    reads_uint128.bind fun liquidity => reads_sides.bind fun vaultBalances =>
    reads_int32.bind fun tick => reads_pure
      (SwapEvent.mk pool user direction amountIn amountOut feeAmount protocolFee referralFee
        sqrtPrice liquidity vaultBalances tick)).run?_eq_ok

theorem LiquidityEvent.run?_layout {body : List UInt8} {e : LiquidityEvent} :
    LiquidityEvent.layout.run? body = .ok e ↔
      144 ≤ body.length ∧ LiquidityEvent.ofBody body = e :=
  (reads_key.bind fun pool => reads_key.bind fun owner => reads_key.bind fun position =>
    reads_uint128.bind fun liquidity => reads_sides.bind fun amounts =>
    reads_sides.bind fun vaultBalances => reads_pure
      (LiquidityEvent.mk pool owner position liquidity amounts vaultBalances)).run?_eq_ok

theorem CollectEvent.run?_layout {body : List UInt8} {e : CollectEvent} :
    CollectEvent.layout.run? body = .ok e ↔ 128 ≤ body.length ∧ CollectEvent.ofBody body = e :=
  (reads_key.bind fun pool => reads_key.bind fun owner => reads_key.bind fun position =>
    reads_sides.bind fun fees => reads_sides.bind fun vaultBalances => reads_pure
      (CollectEvent.mk pool owner position fees vaultBalances)).run?_eq_ok

/-! ### Reading back -/

theorem readsBack_sides (s : Sides UInt64) : ReadsBack Reader.sides s (sidesBytes s) := by
  have hread := (readsBack_uint64 s.a).bind (f := fun a => do return Sides.mk a (← Reader.uint64))
    ((readsBack_uint64 s.b).bind (f := fun b => pure (Sides.mk s.a b)) (readsBack_pure s))
  rwa [List.append_nil] at hread

theorem keyBytes?_eq_some {key : String} {bytes : List UInt8} :
    keyBytes? key = some bytes ↔ bytes.length = 32 ∧ Base58.encode bytes = key := by
  rw [keyBytes?, Option.filter_eq_some_iff, decide_eq_true_eq, and_comm]
  refine and_congr_right fun _ => ⟨Base58.encode_of_decode?, ?_⟩
  rintro rfl
  exact Base58.decode?_encode bytes

theorem readsBack_key {key : String} {bytes : List UInt8} (h : keyBytes? key = some bytes) :
    ReadsBack Reader.key key bytes := by
  obtain ⟨hlength, hkey⟩ := keyBytes?_eq_some.1 h
  exact readsBack_of_take hlength Base58.encode hkey

theorem ReadsBack.run? {read : Read α} {a : α} {bytes : List UInt8} (h : ReadsBack read a bytes)
    (rest : List UInt8) : read.run? (bytes ++ rest) = .ok a := by
  unfold Read.run?
  rw [show Reader.ofBytes (bytes ++ rest) = ⟨0, bytes ++ rest⟩ from rfl, h 0 rest]

theorem SwapEvent.readsBack {e : SwapEvent} {body : List UInt8} (h : e.encode? = some body) :
    ReadsBack SwapEvent.layout e body := by
  simp only [encode?, Option.bind_eq_bind, Option.bind_eq_some_iff, Option.pure_def,
    Option.some.injEq] at h
  obtain ⟨pool, hpool, user, huser, rfl⟩ := h
  simp only [List.append_assoc, sidesBytes]
  exact (readsBack_key hpool).bind <| (readsBack_key huser).bind <|
    (readsBack_uint8 e.direction).bind <| (readsBack_uint64 e.amountIn).bind <|
    (readsBack_uint64 e.amountOut).bind <| (readsBack_uint64 e.feeAmount).bind <|
    (readsBack_uint64 e.protocolFee).bind <| (readsBack_uint64 e.referralFee).bind <|
    (readsBack_uint128 e.sqrtPrice).bind <| (readsBack_uint128 e.liquidity).bind <|
    (readsBack_sides e.vaultBalances).bind <| (readsBack_int32 e.tick).bind (readsBack_pure e)

theorem LiquidityEvent.readsBack {e : LiquidityEvent} {body : List UInt8}
    (h : e.encode? = some body) : ReadsBack LiquidityEvent.layout e body := by
  simp only [encode?, Option.bind_eq_bind, Option.bind_eq_some_iff, Option.pure_def,
    Option.some.injEq] at h
  obtain ⟨pool, hpool, owner, howner, position, hposition, rfl⟩ := h
  simp only [List.append_assoc]
  exact (readsBack_key hpool).bind <| (readsBack_key howner).bind <|
    (readsBack_key hposition).bind <| (readsBack_uint128 e.liquidity).bind <|
    (readsBack_sides e.amounts).bind <| (readsBack_sides e.vaultBalances).bind (readsBack_pure e)

theorem CollectEvent.readsBack {e : CollectEvent} {body : List UInt8}
    (h : e.encode? = some body) : ReadsBack CollectEvent.layout e body := by
  simp only [encode?, Option.bind_eq_bind, Option.bind_eq_some_iff, Option.pure_def,
    Option.some.injEq] at h
  obtain ⟨pool, hpool, owner, howner, position, hposition, rfl⟩ := h
  simp only [List.append_assoc]
  exact (readsBack_key hpool).bind <| (readsBack_key howner).bind <|
    (readsBack_key hposition).bind <| (readsBack_sides e.fees).bind <|
    (readsBack_sides e.vaultBalances).bind (readsBack_pure e)

theorem LiquidityEvent.exists_encode? {e : LiquidityEvent}
    (h : ∀ key ∈ [e.pool, e.owner, e.position], ∃ bytes, keyBytes? key = some bytes) :
    ∃ body, e.encode? = some body := by
  simp only [List.forall_mem_cons] at h
  obtain ⟨⟨pool, hpool⟩, ⟨owner, howner⟩, ⟨position, hposition⟩, -⟩ := h
  exact ⟨_, by simp only [encode?, hpool, howner, hposition]; rfl⟩

namespace PoolEvent

/-- The keys in an event. -/
def keys : PoolEvent → List String
  | swap e => [e.pool, e.user]
  | increase e => [e.pool, e.owner, e.position]
  | decrease e => [e.pool, e.owner, e.position]
  | collect e => [e.pool, e.owner, e.position]

/-- An event can be written if its keys are the texts of 32 bytes. -/
theorem exists_encode? {e : PoolEvent}
    (h : ∀ key ∈ e.keys, ∃ bytes : List UInt8, bytes.length = 32 ∧ Base58.encode bytes = key) :
    ∃ body, e.encode? = some body := by
  have hbytes : ∀ key ∈ e.keys, ∃ bytes, keyBytes? key = some bytes := fun key hkey => by
    obtain ⟨bytes, hbytes⟩ := h key hkey
    exact ⟨bytes, keyBytes?_eq_some.2 hbytes⟩
  cases e with
  | swap e =>
    simp only [keys, List.forall_mem_cons] at hbytes
    obtain ⟨⟨pool, hpool⟩, ⟨user, huser⟩, -⟩ := hbytes
    exact ⟨_, by simp only [encode?, SwapEvent.encode?, hpool, huser]; rfl⟩
  | increase e => exact LiquidityEvent.exists_encode? hbytes
  | decrease e => exact LiquidityEvent.exists_encode? hbytes
  | collect e =>
    simp only [keys, List.forall_mem_cons] at hbytes
    obtain ⟨⟨pool, hpool⟩, ⟨owner, howner⟩, ⟨position, hposition⟩, -⟩ := hbytes
    exact ⟨_, by simp only [encode?, CollectEvent.encode?, hpool, howner, hposition]; rfl⟩

/-- What an event is in a body, by its name: a body of at least so many bytes, with the fields at
fixed offsets. -/
inductive InBody : String → List UInt8 → PoolEvent → Prop
  | swap {body : List UInt8} (h : 157 ≤ body.length) :
    InBody "SwapEvent" body (.swap (.ofBody body))
  | increase {body : List UInt8} (h : 144 ≤ body.length) :
    InBody "IncreaseLiquidityEvent" body (.increase (.ofBody body))
  | decrease {body : List UInt8} (h : 144 ≤ body.length) :
    InBody "DecreaseLiquidityEvent" body (.decrease (.ofBody body))
  | collect {body : List UInt8} (h : 128 ≤ body.length) :
    InBody "CollectFeeEvent" body (.collect (.ofBody body))

/-- What is written is in the body, whatever follows. -/
theorem inBody_of_encode? {e : PoolEvent} {body : List UInt8} (h : e.encode? = some body)
    (rest : List UInt8) : InBody e.name (body ++ rest) e := by
  cases e with
  | swap e =>
    obtain ⟨hlength, rfl⟩ := SwapEvent.run?_layout.1 ((SwapEvent.readsBack h).run? rest)
    exact .swap hlength
  | increase e =>
    obtain ⟨hlength, rfl⟩ := LiquidityEvent.run?_layout.1 ((LiquidityEvent.readsBack h).run? rest)
    exact .increase hlength
  | decrease e =>
    obtain ⟨hlength, rfl⟩ := LiquidityEvent.run?_layout.1 ((LiquidityEvent.readsBack h).run? rest)
    exact .decrease hlength
  | collect e =>
    obtain ⟨hlength, rfl⟩ := CollectEvent.run?_layout.1 ((CollectEvent.readsBack h).run? rest)
    exact .collect hlength

end PoolEvent

end PoolKlines
