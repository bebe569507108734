import FipsShield.Backstop
import FipsShield.Classification
import FipsShield.Subscriptions
import FipsShield.Reads
import FipsShield.Segmentation
import FipsShield.PlainStream
import FipsShield.Bounds
import FipsShield.EndOfStream
import FipsShield.Charges
import FipsShield.Loosening
import FipsShield.Recheck
import FipsShield.Lists
import FipsShield.Conformance
import FipsShield.Decoding
import FipsShield.Guard.Faults
import FipsShield.Guard.Capacity
import FipsShield.Guard.Throttle
import FipsShield.Guard.Overflow
import FipsShield.Guard.Purge
import FipsShield.Guard.Reload
import FipsShield.Guard.Repair
import FipsShield.Backends
import FipsShield.Banlist.Processes
import FipsShield.Banlist.Seconds
import FipsShield.Banlist.Versions
import FipsShield.Banlist.Pipelines
import FipsShield.Access
import FipsShield.Config.Jails
import FipsShield.Config.ActionEnv
import FipsShield.Config.Profiles
import FipsShield.Ui.Json
import FipsShield.Ui.Http
import FipsShield.Ui.Collect
import FipsShield.Filters
import FipsShield.Library.NumberText
import FipsShield.Library.Truncation
import FipsShield.Library.Directives
import FipsShield.Config.Templates
import FipsShield.Config.Rendered
import FipsShield.Config.Listeners
import FipsShield.Library.Reply
import FipsShield.Ui.Services
import FipsShield.Ui.Server
import FipsShield.Ui.Answers
