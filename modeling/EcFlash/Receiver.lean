import EcFlash.Reactive.History
import EcFlash.Wire

/-!
# The receiving side

What the commands are for: an abstract EC that takes an image.  `CMD_SET_OFFSET` says
where the next block belongs, sixteen data words are a block, and the trailer behind
them has its checksum; a block that passes is stored.  The EC advances by itself: a
poll that it answers `1` moves it on to the next block, except for the first one
behind an announcement.

It is told apart from the programs that talk to it: a receiver sees only the commands
and its own replies, which it does not choose.  What `CMD_PHASE_CTRL` erases is left out,
so the flash is what has been stored since the start and nothing else.  A receiver is told
calls; what becomes of them on the way through the nodes is another matter.
-/

namespace EcFlash

open Reactive

/-- The state of the receiving side. -/
structure Receiver where
  /-- Where the current block belongs. -/
  offset : Word
  /-- No poll has been answered `1` since the offset was announced. -/
  fresh : Bool
  /-- The words of the current block so far. -/
  words : List (Byte × Byte)
  /-- What has been stored. -/
  flash : Nat → Option Byte

/-- The bytes of some words. -/
def wordBytes (words : List (Byte × Byte)) : List Byte :=
  words.flatMap fun w => [w.1, w.2]

/-- The flash with `bytes` stored from `off` on. -/
def storeBytes (flash : Nat → Option Byte) (off : Nat) (bytes : List Byte) : Nat → Option Byte :=
  fun pos => if off ≤ pos ∧ pos < off + bytes.length then bytes[pos - off]? else flash pos

namespace Receiver

def initial : Receiver := ⟨0#32, true, [], fun _ => none⟩

/-- An announcement. -/
def announce (r : Receiver) (lo hi : Byte) : Receiver :=
  { r with offset := BitVec.ofNat 32 (lo.toNat + 256 * hi.toNat), fresh := true, words := [] }

/-- A poll, and the reply to it. -/
def poll (r : Receiver) (reply : Byte) : Receiver :=
  if reply = 1#8 then
    { r with offset := if r.fresh then r.offset else r.offset + 32#32, fresh := false, words := [] }
  else { r with words := [] }

/-- Store a block at the current offset. -/
def stored (r : Receiver) (block : List Byte) : Receiver :=
  { r with words := [], flash := storeBytes r.flash r.offset.toNat block }

/-- A data word, or the trailer behind sixteen of them. -/
def take (r : Receiver) (word : Byte × Byte) : Receiver :=
  if r.words.length < 16 then { r with words := r.words ++ [word] }
  else if word.1 = crc8Calculator (wordBytes r.words) 32 then r.stored (wordBytes r.words)
  else { r with words := [] }

/-- One exchange.  A call that failed did not arrive. -/
def receive (r : Receiver) : Call × Transfer → Receiver
  | (_, none) => r
  | (c, some reply) =>
      if c.cmd = cmdSetOffset then r.announce c.io0 c.io1
      else if c.cmd = cmdPollProgress then r.poll reply.1
      else if c.cmd = cmdStreamData then r.take (c.io0, c.io1)
      else r

end Receiver

/-- The receiver after the exchanges of a run. -/
def received (xs : Exchanges) : Receiver :=
  xs.foldl Receiver.receive .initial

/-- The EC may ask for the next block: right behind an announcement, and when the current
block is stored. -/
def Receiver.Ready (r : Receiver) : Prop :=
  r.fresh = true ∨ r.flash r.offset.toNat ≠ none

instance (r : Receiver) : Decidable r.Ready :=
  inferInstanceAs (Decidable (_ ∨ _))

/-- Polls are answered `1` only by an EC that is ready; one that has dropped a block has
to ask for it again. -/
def Truthful (xs : Exchanges) : Prop :=
  Always (fun before x => x.1.cmd = cmdPollProgress → x.2.map Prod.fst = some 1#8 →
    (received before).Ready) xs

instance (xs : Exchanges) : Decidable (Truthful xs) :=
  inferInstanceAs (Decidable (Always _ _))

section Received

variable {xs : Exchanges} {c : Call} {reply : Byte × Byte} {r : Receiver}

@[simp] theorem received_nil : received [] = .initial := rfl

@[simp] theorem received_concat (x : Call × Transfer) :
    received (xs ++ [x]) = (received xs).receive x := by
  simp [received]

/-- The receiver goes on with every answered call of a run. -/
theorem received_answer {Out State : Type*} (m : Machine Call Transfer Out State)
    (cfg : Config Call Transfer Out State) (c : Call) (a : Transfer) :
    received (exchanges (m.answer cfg c a).trace) =
      (received (exchanges cfg.trace)).receive (c, a) := by
  rw [Machine.exchanges_answer, received_concat]

@[simp] theorem receive_failed (c : Call) : r.receive (c, none) = r := rfl

theorem receive_setOffset (h : c.cmd = cmdSetOffset) :
    r.receive (c, some reply) = r.announce c.io0 c.io1 := by
  rw [Receiver.receive, if_pos h]

theorem receive_poll (h : c.cmd = cmdPollProgress) :
    r.receive (c, some reply) = r.poll reply.1 := by
  have hset : cmdPollProgress ≠ cmdSetOffset := by decide
  rw [Receiver.receive, h, if_neg hset, if_pos rfl]

theorem receive_streamData (h : c.cmd = cmdStreamData) :
    r.receive (c, some reply) = r.take (c.io0, c.io1) := by
  have hset : cmdStreamData ≠ cmdSetOffset := by decide
  have hpoll : cmdStreamData ≠ cmdPollProgress := by decide
  rw [Receiver.receive, h, if_neg hset, if_neg hpoll, if_pos rfl]

/-- The other commands leave the receiver alone. -/
theorem receive_other (hset : c.cmd ≠ cmdSetOffset) (hpoll : c.cmd ≠ cmdPollProgress)
    (hdata : c.cmd ≠ cmdStreamData) (a : Transfer) : r.receive (c, a) = r := by
  cases a with
  | none => rfl
  | some reply => rw [Receiver.receive, if_neg hset, if_neg hpoll, if_neg hdata]

theorem flash_poll (r : Receiver) (b : Byte) : (r.poll b).flash = r.flash := by
  unfold Receiver.poll
  split <;> rfl

theorem words_poll (r : Receiver) (b : Byte) : (r.poll b).words = [] := by
  unfold Receiver.poll
  split <;> rfl

theorem fresh_poll (r : Receiver) (b : Byte) :
    (r.poll b).fresh = (r.fresh && decide (b ≠ 1#8)) := by
  unfold Receiver.poll
  by_cases hb : b = 1#8 <;> simp [hb]

theorem offset_poll (r : Receiver) (b : Byte) :
    (r.poll b).offset = r.offset + if b = 1#8 ∧ r.fresh = false then 32#32 else 0#32 := by
  unfold Receiver.poll
  by_cases hb : b = 1#8 <;> cases r.fresh <;> simp [hb]

theorem take_word (h : r.words.length < 16) (word : Byte × Byte) :
    r.take word = { r with words := r.words ++ [word] } := by
  rw [Receiver.take, if_pos h]

/-- A trailer ends the block, whatever it brings. -/
theorem words_take (r : Receiver) (word : Byte × Byte) :
    (r.take word).words = if r.words.length < 16 then r.words ++ [word] else [] := by
  unfold Receiver.take
  split <;> [rfl; split] <;> rfl

theorem fresh_take (r : Receiver) (word : Byte × Byte) : (r.take word).fresh = r.fresh := by
  unfold Receiver.take
  split <;> [rfl; split] <;> rfl

theorem offset_take (r : Receiver) (word : Byte × Byte) : (r.take word).offset = r.offset := by
  unfold Receiver.take
  split <;> [rfl; split] <;> rfl

/-- A block with its own checksum is stored. -/
theorem take_trailer {block : List Byte} (hwords : wordBytes r.words = block)
    (hcount : r.words.length = 16) (tag : Byte) :
    r.take (crc8Calculator block 32, tag) = r.stored block := by
  rw [Receiver.take, if_neg (by omega), hwords, if_pos rfl]

/-- Sixteen words are the block that they were made from. -/
theorem wordBytes_dataWords {block : List Byte} (h : block.length = 32) :
    wordBytes (dataWords block) = block := by
  have hpairs : ∀ n (bytes : List Byte), bytes.length = 2 * n →
      wordBytes ((List.range n).map fun i =>
        (bytes.getD (2 * i) 0#8, bytes.getD (2 * i + 1) 0#8)) = bytes := by
    intro n
    induction n with
    | zero =>
        intro bytes hlen
        rw [List.eq_nil_of_length_eq_zero hlen]
        rfl
    | succ n ih =>
        rintro (_ | ⟨b0, _ | ⟨b1, bytes⟩⟩) hlen
        · simp at hlen
        · simp at hlen
          omega
        · have hrest := ih bytes (by simp at hlen; omega)
          have hshift : ∀ i, 2 * (i + 1) = 2 * i + 1 + 1 := fun i => by omega
          simp only [wordBytes] at hrest ⊢
          rw [List.range_succ_eq_map, List.map_cons, List.flatMap_cons, List.map_map]
          simp only [Function.comp_def, hshift, List.getD_cons_succ]
          rw [hrest]
          rfl
  exact hpairs 16 block (by omega)

theorem storeBytes_of_mem {flash : Nat → Option Byte} {off pos : Nat} {bytes : List Byte}
    (h : off ≤ pos ∧ pos < off + bytes.length) :
    storeBytes flash off bytes pos = bytes[pos - off]? :=
  if_pos h

theorem storeBytes_of_not_mem {flash : Nat → Option Byte} {off pos : Nat} {bytes : List Byte}
    (h : ¬ (off ≤ pos ∧ pos < off + bytes.length)) :
    storeBytes flash off bytes pos = flash pos :=
  if_neg h

/-- A block of a file, stored anywhere. -/
theorem storeBytes_block {flash : Nat → Option Byte} {off pos : Nat} (img : Image)
    (store : Word → Byte) (src : Nat) (h : off ≤ pos ∧ pos < off + 32) :
    storeBytes flash off (img.block store 32 src) pos =
      some (store (img.getc (src + (pos - off)))) := by
  rw [storeBytes_of_mem (by rwa [Image.length_block]), Image.block, List.getElem?_map,
    List.getElem?_range (by omega), Option.map_some]

end Received

end EcFlash
