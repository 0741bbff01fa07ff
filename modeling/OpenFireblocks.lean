import OpenFireblocks.Agents.WithinBudget
import OpenFireblocks.Approval.Members
import OpenFireblocks.Approval.Settlement
import OpenFireblocks.Backup.AllOrNothing
import OpenFireblocks.Billing.PaidOnce
import OpenFireblocks.Billing.Usage
import OpenFireblocks.Bitcoin.Governed
import OpenFireblocks.Bitcoin.LargestFirst
import OpenFireblocks.Cosmos.Assembled
import OpenFireblocks.Eth.DecodeCanonical
import OpenFireblocks.Eth.SigningSafety
import OpenFireblocks.Identity.AccountLock
import OpenFireblocks.Identity.Guesses
import OpenFireblocks.Identity.Mfa
import OpenFireblocks.Keys.Idempotency
import OpenFireblocks.Nonces.Unique
import OpenFireblocks.Party.Agreement
import OpenFireblocks.Party.Canonical
import OpenFireblocks.Party.Drive
import OpenFireblocks.Party.Membership
import OpenFireblocks.Party.Recovery
import OpenFireblocks.Party.Retention
import OpenFireblocks.Party.Relay
import OpenFireblocks.Party.Retirement
import OpenFireblocks.Party.SigningMessage
import OpenFireblocks.Party.SigningSessions
import OpenFireblocks.PermissionedToken.Logs
import OpenFireblocks.PermissionedToken.Spending
import OpenFireblocks.Reconciliation.Confirmed
import OpenFireblocks.Settlement.Broadcast
import OpenFireblocks.Solana.BuilderPanics
import OpenFireblocks.Transfers.AtMostOnce
import OpenFireblocks.Worker.Rotation
import OpenFireblocks.Policy.Allowance
import OpenFireblocks.Bitcoin.Assemble
import OpenFireblocks.Solana.MessageMeaning
