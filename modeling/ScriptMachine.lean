import ScriptMachine.Host.Holders
import ScriptMachine.Host.Session
import ScriptMachine.Main
import ScriptMachine.Proofs.Evolution
import ScriptMachine.Proofs.Stepping
import ScriptMachine.Proofs.Turns
import ScriptMachine.Proofs.Hosting
import ScriptMachine.Proofs.Account
import ScriptMachine.Proofs.Alarm
import ScriptMachine.Proofs.Retirement
import ScriptMachine.Proofs.Wording
import ScriptMachine.Proofs.Syntax
import ScriptMachine.Proofs.Reading
import ScriptMachine.Proofs.Nesting
import ScriptMachine.Proofs.Recognition
import ScriptMachine.Proofs.Stacks
import ScriptMachine.Proofs.Balance
import ScriptMachine.Proofs.Unseen
import ScriptMachine.Proofs.Structured
import ScriptMachine.Proofs.Simulation
import ScriptMachine.Proofs.Agreement
import ScriptMachine.Proofs.Linkage
import ScriptMachine.Proofs.Compiling
import ScriptMachine.Proofs.Stacking
import ScriptMachine.Proofs.Requesting
import ScriptMachine.Proofs.Returning
import ScriptMachine.Proofs.Timing
import ScriptMachine.Proofs.Ticking
import ScriptMachine.Proofs.Resuming
import ScriptMachine.Proofs.Resolving
import ScriptMachine.Proofs.Binding
import ScriptMachine.Proofs.Chronicle
import ScriptMachine.Proofs.Settling
import ScriptMachine.Proofs.Telling
import ScriptMachine.Proofs.Aborting
import ScriptMachine.Proofs.Depth
import ScriptMachine.Proofs.Calm
import ScriptMachine.Proofs.Refusing
import ScriptMachine.Proofs.Referring
import ScriptMachine.Proofs.Heeding
import ScriptMachine.Proofs.Upholding
import ScriptMachine.Proofs.Respecting
import ScriptMachine.Proofs.Removing
import ScriptMachine.Proofs.Caching
import ScriptMachine.Proofs.Census
import ScriptMachine.Proofs.Tallying
import ScriptMachine.Proofs.Living
import ScriptMachine.Proofs.Polling
import ScriptMachine.Proofs.Meaning
import ScriptMachine.Proofs.Caseless
import ScriptMachine.Proofs.Declining
import ScriptMachine.Proofs.Quotation
import ScriptMachine.Proofs.Initializing
import ScriptMachine.Proofs.Sharing
import ScriptMachine.Proofs.Exchanging
import ScriptMachine.Proofs.Visiting
import ScriptMachine.Proofs.Recovering
import ScriptMachine.Proofs.Gathering
import ScriptMachine.Proofs.Commanding
import ScriptMachine.Proofs.Judging
import ScriptMachine.Proofs.Stifling
import ScriptMachine.Proofs.Reporting
import ScriptMachine.Proofs.Locating
import ScriptMachine.Proofs.Halting
import ScriptMachine.Proofs.Indexing
import ScriptMachine.Proofs.Comparing
import ScriptMachine.Proofs.Subscripting
import ScriptMachine.Proofs.Straight
import ScriptMachine.Proofs.Converging
import ScriptMachine.Proofs.Shelving
import ScriptMachine.Proofs.Ending
import ScriptMachine.Proofs.Truncating
import ScriptMachine.Proofs.Templating
import ScriptMachine.Proofs.Tokenizing
import ScriptMachine.Proofs.Freeing
