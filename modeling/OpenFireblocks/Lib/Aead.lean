import OpenFireblocks.Lib.BigEndian

/-!
# Authenticated encryption

An AEAD seals a plaintext under a nonce and associated data, and opens what was sealed. It is ideal
for a log of what was sealed if it opens exactly what is in the log; `logged` is such a one.
-/

open BigEndian

structure Aead where
  sealBytes : (nonce plaintext aad : Bytes) → Bytes
  openBytes : (nonce ciphertext aad : Bytes) → Option Bytes

namespace Aead

/-- One call of `sealBytes`. -/
structure Sealing where
  nonce : Bytes
  plaintext : Bytes
  aad : Bytes

/-- A ciphertext is `overhead` bytes longer than the plaintext, and `openBytes` succeeds exactly on the
nonce, the ciphertext and the associated data of a sealing in the log. -/
structure Ideal (aead : Aead) (overhead : Nat) (log : Sealing → Prop) : Prop where
  length_sealBytes : ∀ n p a, (aead.sealBytes n p a).length = p.length + overhead
  openBytes_eq_some : ∀ {n c a p}, aead.openBytes n c a = some p ↔ log ⟨n, p, a⟩ ∧ aead.sealBytes n p a = c

variable {aead : Aead} {overhead : Nat} {log : Sealing → Prop}

theorem Ideal.openBytes_sealBytes (h : aead.Ideal overhead log) {n p a : Bytes} (hlog : log ⟨n, p, a⟩) :
    aead.openBytes n (aead.sealBytes n p a) a = some p :=
  h.openBytes_eq_some.mpr ⟨hlog, rfl⟩

def logged (overhead : Nat) (log : List Sealing) : Aead where
  sealBytes _ p _ := p ++ List.replicate overhead 0
  openBytes n c a := (log.find? fun s =>
    s.nonce = n ∧ s.aad = a ∧ s.plaintext ++ List.replicate overhead 0 = c).map Sealing.plaintext

theorem logged_ideal (overhead : Nat) (log : List Sealing) :
    (logged overhead log).Ideal overhead (· ∈ log) where
  length_sealBytes := by
    intro n p a
    show (p ++ List.replicate overhead 0).length = _
    rw [List.length_append, List.length_replicate]
  openBytes_eq_some := by
    intro n c a p
    constructor
    · intro h
      obtain ⟨s, hfound, rfl⟩ := Option.map_eq_some_iff.mp h
      have hs := List.find?_some hfound
      rw [decide_eq_true_eq] at hs
      obtain ⟨rfl, rfl, hc⟩ := hs
      exact ⟨List.mem_of_find?_eq_some hfound, hc⟩
    · rintro ⟨hlog, hc⟩
      -- Another sealing may be found first, but its plaintext is the same.
      have hsome : (log.find? fun s => s.nonce = n ∧ s.aad = a ∧
          s.plaintext ++ List.replicate overhead 0 = c).isSome := by
        rw [List.find?_isSome]
        exact ⟨⟨n, p, a⟩, hlog, decide_eq_true ⟨rfl, rfl, hc⟩⟩
      obtain ⟨s, hfound⟩ := Option.isSome_iff_exists.mp hsome
      have hs := List.find?_some hfound
      rw [decide_eq_true_eq] at hs
      refine Option.map_eq_some_iff.mpr ⟨s, hfound, ?_⟩
      exact List.append_cancel_right (hs.2.2.trans hc.symm)

end Aead
