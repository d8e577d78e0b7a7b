import Svm.Proof.BatchRent
import Svm.Proof.Overlay

/-!
# Readonly accounts over a batch

A transaction changes the accounts that it may write, and no other
(`processTransaction_readonly`). So an account that no transaction of a batch may write
is, after the batch, as it was (`batch_leaves_readonly`).
-/

namespace Svm

open Run AccountLoader Prod OnePayer
open List hiding getElem?_eq_some_iff

section Readonly

variable {env : ProcessingEnvironment} {l : AccountLoader} {key : Pubkey}

/-- A transaction may write the accounts it has as writable, and that of its nonce. -/
def MayWrite (tx : CheckedTransaction) (key : Pubkey) : Prop :=
  (∃ i, tx.1.accountKeys[i]? = some key ∧ tx.1.isWritable i = true) ∨
    ∃ details, tx.2 = .ok details ∧ details.nonceAddress = some key

theorem processTransaction_readonly {tx : CheckedTransaction} (processMessage) (config) (hl : l.Valid)
    (hsanitized : tx.1.Sanitized) (hkey : ¬ MayWrite tx key) :
    (processTransaction (env.executing processMessage) config tx.1 tx.2 l).2.view key = l.view key := by
  rw [MayWrite, not_or] at hkey
  have hview := (processTransaction_spec (env.executing processMessage) config tx.1 tx.2 hl).2
  cases hp : (processTransaction (env.executing processMessage) config tx.1 tx.2 l).1 with
  | error e =>
    rw [hview, hp]
    rfl
  | ok p =>
    by_cases hfailed : p.Failed
    · obtain ⟨-, details, hchecked, hcharged⟩ := processTransaction_failed hl hp hfailed
      refine hcharged.others key ?_ fun hnonce => hkey.2 ⟨details, hchecked, hnonce⟩
      rintro rfl
      exact hkey.1 ⟨0, hsanitized.feePayer, hsanitized.writable⟩
    · obtain ⟨loaded, l1, accounts, hrun, hexecute, hcommit⟩ := processTransaction_succeeded hp hfailed
      have hkeys : accounts.map fst = tx.1.accountKeys :=
        (executeTransaction_ok hexecute).1.trans ((validateAndLoad_loaded hrun).keys hsanitized)
      rw [hview, hp, hcommit, ← view_insertAll]
      refine view_insertAll_of_not_mem ?_
      rintro entry hentry rfl
      obtain ⟨i, hi, -, hwritable, -⟩ := mem_accountsToStore_iff.mp hentry
      refine hkey.1 ⟨i, ?_, hwritable⟩
      rw [← hkeys, getElem?_map, hi]
      rfl

end Readonly

namespace Vault

theorem funded_store : store.Funded := by
  intro key account slot h
  rw [store] at h
  split_ifs at h
  · cases h
    decide
  · cases h
    decide
  · cases h
    decide
  · exact OnePayer.funded_store key account slot h

end Vault

/-- A batch leaves every account as it was that none of its transactions may write, whatever
the programs do, and whether or not the transactions succeed. -/
theorem batch_leaves_readonly (env : ProcessingEnvironment) (processMessage : ProcessMessage)
    (config : ProcessingConfig) (store : Store) (txs : List CheckedTransaction) (key : Pubkey)
    (hstore : store.Funded) (hsanitized : ∀ tx ∈ txs, tx.1.Sanitized) (hkey : ∀ tx ∈ txs, ¬ MayWrite tx key) :
    (loaderAfter (env.executing processMessage) config store txs).view key =
      (loaderAfter (env.executing processMessage) config store []).view key := by
  induction txs using reverseRecOn with
  | nil => rfl
  | append_singleton txs tx ih =>
    obtain ⟨hsanitized, hlast⟩ := forall_mem_append.mp hsanitized
    obtain ⟨hkey, hnot⟩ := forall_mem_append.mp hkey
    rw [← ih hsanitized hkey, loaderAfter, foldl_append]
    exact processTransaction_readonly processMessage config (valid_loaderAfter hstore txs)
      (hlast tx (mem_singleton_self tx)) (hnot tx (mem_singleton_self tx))

theorem batch_leaves_readonly_program :
    let env' := Vault.env.executing Vault.processMessage
    let l := loaderAfter env' config Vault.store []
    let l' := loaderAfter env' config Vault.store [(Vault.message, .ok Vault.details)]
    l'.view Vault.vault ≠ l.view Vault.vault ∧ l'.view Vault.program = l.view Vault.program := by
  refine ⟨by decide +kernel, batch_leaves_readonly _ _ config _ _ _ Vault.funded_store
    (forall_mem_singleton.mpr Vault.sanitized) (forall_mem_singleton.mpr ?_)⟩
  rintro (⟨_ | _ | i, hi, hwritable⟩ | ⟨_, ⟨⟩, ⟨⟩⟩)
  · exact absurd hi (by decide)
  · exact absurd hi (by decide)
  · cases hwritable

end Svm
