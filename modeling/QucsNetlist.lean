import QucsNetlist.Netlist
import QucsNetlist.SubCycles
import QucsNetlist.Intern
import QucsNetlist.Actions
import QucsNetlist.Expand
import QucsNetlist.Checker
import QucsNetlist.Frame
import QucsNetlist.Duplicates
import QucsNetlist.Accept
import QucsNetlist.CycleFlag
import QucsNetlist.Reference
import QucsNetlist.Expansion
import QucsNetlist.Flatten
import QucsNetlist.Ports
import QucsNetlist.Names
import QucsNetlist.Nonlinear
import QucsNetlist.Ranges
import QucsNetlist.Sweeps
import QucsNetlist.Variables
import QucsNetlist.Conform
import QucsNetlist.ListChecks
import QucsNetlist.Scales
import QucsNetlist.HeadRanges
import QucsNetlist.Resolution
import QucsNetlist.Messages
import QucsNetlist.Totality
