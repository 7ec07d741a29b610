import ChipSim.Lib.Dict
import ChipSim.Lib.Fold
import ChipSim.Lib.DictLoops
import ChipSim.Lib.Machine
import ChipSim.Lib.Lists
import ChipSim.Lib.TopoSort
import ChipSim.Lib.Round
import ChipSim.Lib.Double
import ChipSim.PyError
import ChipSim.Lib.Words
import ChipSim.PyString
import ChipSim.ModelProcessor
import ChipSim.CommTypes
import ChipSim.Chiplet
import ChipSim.System
import ChipSim.MappedModel.Schedule
import ChipSim.MappedModel.Phases
import ChipSim.MappedModel.Timing
import ChipSim.MappedModel.Records
import ChipSim.MappedModel.ScheduleFacts
import ChipSim.MappedModel.WellFormed
import ChipSim.MappedModel.Initial
import ChipSim.MappedModel.Step
import ChipSim.MappedModel.Synchronised
import ChipSim.MappedModel.Run
import ChipSim.MappedModel.Dependencies
import ChipSim.MappedModel.ActivePhases
import ChipSim.MappedModel.StartTimes
import ChipSim.MappedModel.RemainingTraffic
import ChipSim.MappedModel.Ongoing
import ChipSim.MappedModel.Liveness
import ChipSim.MappedModel.TimingFixpoint
import ChipSim.MappedModel.KnownTimes
import ChipSim.MappedModel.Progress
import ChipSim.ModelMapper
import ChipSim.TrafficCalculator
import ChipSim.TrafficCalculator.WeightLoading
import ChipSim.ModelMapper.Allocation
import ChipSim.ModelMapper.Shares
import ChipSim.ModelMapper.Spill
import ChipSim.ModelMapper.Coverage
import ChipSim.ModelMapper.Admission
import ChipSim.LayerPartitioner
import ChipSim.LayerPartitioner.Rounding
import ChipSim.LayerPartitioner.Objects
import ChipSim.WorkloadManager
import ChipSim.Orchestrator
import ChipSim.Orchestrator.Operations
import ChipSim.Orchestrator.Traffic
import ChipSim.Orchestrator.Responses
import ChipSim.GlobalManager
import ChipSim.GlobalManager.Steps
import ChipSim.GlobalManager.Histories
import ChipSim.GlobalManager.Injection
import ChipSim.GlobalManager.Overtaking
import ChipSim.GlobalManager.Capacity
import ChipSim.GlobalManager.Retirement
import ChipSim.GlobalManager.CoActive
import ChipSim.GlobalManager.Unblocked
import ChipSim.GlobalManager.Progress
import ChipSim.Thermal.Adapter
import ChipSim.Thermal.PowerGrid
import ChipSim.Thermal.RoundTrip
import ChipSim.Lib.Network
import ChipSim.Thermal.Layers
import ChipSim.Thermal.Package
import ChipSim.Thermal.Conductance
import ChipSim.Thermal.Assembly
import ChipSim.Thermal.Transient
import ChipSim.Garnet.Trace
import ChipSim.Garnet.TraceRoundTrip
import ChipSim.Garnet.Stats
import ChipSim.Lib.Memo
import ChipSim.CommunicationSimulator
import ChipSim.CommunicationSimulator.Cache
import ChipSim.ModelSummary
import ChipSim.ModelSummary.WeightLoading
import ChipSim.Lib.Binning
import ChipSim.PowerComputer
import ChipSim.PowerComputer.Profile
import ChipSim.PowerComputer.Energy
import ChipSim.MappedModel.RecordedStarts
import ChipSim.GlobalManager.Measured
import ChipSim.PowerComputer.SystemEnergy
import ChipSim.PowerComputer.ComputeIntervals
import ChipSim.PowerComputer.Communication
import ChipSim.ModelMapper.Rejection
import ChipSim.GlobalManager.Memory
import ChipSim.TrafficCalculator.Sizing
import ChipSim.UtilizationComputer
import ChipSim.ComputeSimulation.Analytical
import ChipSim.ComputeSimulation.Cimloop
import ChipSim.WorkloadManager.Accounting
import ChipSim.StatsCollector
import ChipSim.TemporalFilter
import ChipSim.Garnet.Topology
import ChipSim.Garnet.Completion
import ChipSim.Thermal.Chunked
import ChipSim.Thermal.Power
import ChipSim.Garnet.PhaseLines
import ChipSim.CommunicationSimulator.PhaseLatencies
import ChipSim.Thermal.PeakFinder
import ChipSim.Garnet.Injection
import ChipSim.Lib.Grid
import ChipSim.Thermal.PeakNodes
import ChipSim.Thermal.BlockTemperatures
import ChipSim.Lib.Distances
import ChipSim.Garnet.RoutingTable
import ChipSim.Garnet.Routes
import ChipSim.Lib.Buffers
import ChipSim.Garnet.Network
import ChipSim.Garnet.Delivery
